/-!
# Maps from names

A `NameMap` keeps one entry per name, in the order of the names by code point. Two maps with the
same entries are equal, and a later entry for a name replaces an earlier one.
-/

namespace Allotment
set_option autoImplicit false

/-- **A finite map from names**, sorted by name. -/
structure NameMap (β : Type) where
  entries : List (String × β)
  sorted : entries.Pairwise fun a b => a.1 < b.1
  deriving DecidableEq, Repr

namespace NameMap

variable {β γ : Type}

/-- An entry put into a sorted list of entries, in place of one for the same name. -/
def insertEntry (name : String) (value : β) : List (String × β) → List (String × β)
  | [] => [(name, value)]
  | entry :: rest =>
    if name < entry.1 then (name, value) :: entry :: rest
    else if entry.1 < name then entry :: insertEntry name value rest
    else (name, value) :: rest

theorem eq_or_mem_of_mem_insertEntry {name : String} {value : β} {entries : List (String × β)}
    {entry : String × β} (h : entry ∈ insertEntry name value entries) :
    entry = (name, value) ∨ entry ∈ entries := by
  induction entries with
  | nil => simp_all [insertEntry]
  | cons first rest ih =>
    unfold insertEntry at h
    split at h
    · rcases List.mem_cons.1 h with rfl | h
      · exact .inl rfl
      · exact .inr h
    · split at h
      · rcases List.mem_cons.1 h with rfl | h
        · exact .inr List.mem_cons_self
        · exact (ih h).imp_right (List.mem_cons_of_mem _)
      · rcases List.mem_cons.1 h with rfl | h
        · exact .inl rfl
        · exact .inr (List.mem_cons_of_mem _ h)

theorem eq_of_not_lt {a b : String} (hab : ¬ a < b) (hba : ¬ b < a) : a = b :=
  String.le_antisymm (String.not_lt.1 hba) (String.not_lt.1 hab)

theorem sorted_insertEntry (name : String) (value : β) {entries : List (String × β)}
    (h : entries.Pairwise fun a b => a.1 < b.1) :
    (insertEntry name value entries).Pairwise fun a b => a.1 < b.1 := by
  induction entries with
  | nil => simp [insertEntry]
  | cons first rest ih =>
    obtain ⟨hfirst, hrest⟩ := List.pairwise_cons.1 h
    unfold insertEntry
    split
    next hlt =>
      refine List.pairwise_cons.2 ⟨fun entry hentry => ?_, h⟩
      rcases List.mem_cons.1 hentry with rfl | hentry
      · exact hlt
      · exact String.lt_trans hlt (hfirst entry hentry)
    next hlt =>
      split
      next hgt =>
        refine List.pairwise_cons.2 ⟨fun entry hentry => ?_, ih hrest⟩
        rcases eq_or_mem_of_mem_insertEntry hentry with rfl | hentry
        · exact hgt
        · exact hfirst entry hentry
      next hgt =>
        have hname : name = first.1 := eq_of_not_lt hlt hgt
        refine List.pairwise_cons.2 ⟨fun entry hentry => ?_, hrest⟩
        exact hname ▸ hfirst entry hentry

/-- The map without entries. -/
def empty : NameMap β := ⟨[], .nil⟩

/-- The map with one more entry, in place of one for the same name. -/
def insert (m : NameMap β) (name : String) (value : β) : NameMap β :=
  ⟨insertEntry name value m.entries, sorted_insertEntry name value m.sorted⟩

/-- **The map of a list of entries**; of several for a name the last one counts. -/
def ofList (entries : List (String × β)) : NameMap β :=
  entries.foldl (fun m entry => m.insert entry.1 entry.2) empty

/-- The value of a name. -/
def find? (m : NameMap β) (name : String) : Option β :=
  (m.entries.find? (·.1 == name)).map (·.2)

/-- The names, in order. -/
def names (m : NameMap β) : List String := m.entries.map (·.1)

end NameMap

end Allotment
