import Mathlib
import Allotment.Exchange.Settings

/-!
# Reading what was written

A writer and a reader of one kind of value belong together (`Json.RoundTrips`) when the reader gets
back every value that can be written, and gets nothing else from any JSON value whatsoever. Then what
was read in a lenient spelling is read again from the one spelling in which it is written
(`Json.RoundTrips.again`). That spelling is described by a `Schema`, which knows no second names, no
members left out and no unknown ones.

A record is read by asking its fields one by one, so the pair of a record needs two things: that an
object whose members are the fields of the shape, each under its own name, is found to have just
these members (`Json.record?_obj`), and that a field holds what its reader gets or the default.
-/

namespace Allotment
set_option autoImplicit false

variable {α β γ : Type}

/-! ## Lists and maps of values -/

/-- **What a reader yields**, if it yields anything, has a property. -/
def Yields (P : β → Prop) (o : Option β) : Prop := ∀ x, o = some x → P x

namespace Yields

variable {P : γ → Prop} {Q : β → Prop} {o : Option β} {f : β → Option γ}

theorem any : Yields (fun _ => True) o := fun _ _ => trivial

theorem pure {y : γ} (h : P y) : Yields P (some y) := fun _ read => Option.some.inj read ▸ h

theorem bind (first : Yields Q o) (rest : ∀ x, Q x → Yields P (f x)) : Yields P (o >>= f) := by
  intro y read
  obtain ⟨x, hx, hy⟩ := Option.bind_eq_some_iff.mp read
  exact rest x (first x hx) y hy

end Yields

/-- A step that succeeds, and then the rest. -/
theorem bind_eq_some {o : Option β} {f : β → Option γ} {x : β} {y : γ} (first : o = some x)
    (rest : f x = some y) : (o >>= f) = some y := by
  rw [first]
  exact rest

theorem mapM_map_eq_some {f : β → γ} {g : γ → Option β} {xs : List β}
    (h : ∀ x ∈ xs, g (f x) = some x) : (xs.map f).mapM g = some xs := by
  induction xs with
  | nil => rfl
  | cons x xs ih =>
    obtain ⟨head, tail⟩ := List.forall_mem_cons.mp h
    rw [List.map_cons, List.mapM_cons, head, ih tail]
    rfl

theorem yields_mapM {f : β → Option γ} {P : γ → Prop} (each : ∀ x, Yields P (f x)) (xs : List β) :
    Yields (fun ys => ∀ y ∈ ys, P y) (xs.mapM f) := by
  induction xs with
  | nil => exact .pure (List.forall_mem_nil P)
  | cons x xs ih =>
    rw [List.mapM_cons]
    exact .bind (each x) fun y hy => .bind ih fun ys hys => .pure (List.forall_mem_cons.mpr ⟨hy, hys⟩)

theorem lookup_eq_some {entries : List (String × β)} (distinct : (entries.map (·.1)).Nodup) {i : ℕ}
    {name : String} {x : β} (h : entries[i]? = some (name, x)) : entries.lookup name = some x := by
  induction entries generalizing i with
  | nil => cases h
  | cons e entries ih =>
    obtain ⟨fresh, distinct⟩ := List.nodup_cons.mp distinct
    cases i with
    | zero =>
      obtain rfl := Option.some.inj h
      rw [List.lookup, beq_self_eq_true]
    | succ i =>
      have later : name ∈ entries.map (·.1) := List.mem_map.mpr ⟨_, List.mem_of_getElem? h, rfl⟩
      have other : name ≠ e.1 := ne_of_mem_of_not_mem later fresh
      rw [List.lookup, beq_false_of_ne other]
      exact ih distinct h

namespace NameMap

/-- The values of a map, in the order of their names. -/
def values (m : NameMap β) : List β := m.entries.map (·.2)

theorem insertEntry_of_last {name : String} {value : β} {entries : List (String × β)}
    (last : ∀ e ∈ entries, e.1 < name) : insertEntry name value entries = entries ++ [(name, value)] := by
  induction entries with
  | nil => rfl
  | cons e entries ih =>
    obtain ⟨head, tail⟩ := List.forall_mem_cons.mp last
    rw [insertEntry, if_neg (String.lt_asymm head), if_pos head, ih tail, List.cons_append]

/-- Entries that are sorted are put in one after the other. -/
theorem foldl_insert_entries {m : NameMap β} {rest : List (String × β)}
    (sorted : (m.entries ++ rest).Pairwise fun a b => a.1 < b.1) :
    (rest.foldl (fun m e => m.insert e.1 e.2) m).entries = m.entries ++ rest := by
  induction rest generalizing m with
  | nil => exact (List.append_nil _).symm
  | cons e rest ih =>
    have last : ∀ d ∈ m.entries, d.1 < e.1 := fun d hd =>
      (List.pairwise_append.mp sorted).2.2 d hd e List.mem_cons_self
    have entries : (m.insert e.1 e.2).entries = m.entries ++ [e] := insertEntry_of_last last
    have split : m.entries ++ e :: rest = (m.insert e.1 e.2).entries ++ rest := by
      rw [entries, List.append_assoc, List.singleton_append]
    rw [List.foldl_cons, ih (split ▸ sorted), split]

/-- **A map is the map of its entries.** -/
theorem ofList_entries (m : NameMap β) : ofList m.entries = m := by
  have entries : (ofList m.entries).entries = m.entries :=
    foldl_insert_entries (m := empty) m.sorted
  cases m
  cases h : ofList _
  simp_all

theorem mem_of_mem_foldl_insert {entries : List (String × β)} {m : NameMap β} {e : String × β}
    (h : e ∈ (entries.foldl (fun m e => m.insert e.1 e.2) m).entries) :
    e ∈ m.entries ∨ e ∈ entries := by
  induction entries generalizing m with
  | nil => exact .inl h
  | cons d entries ih =>
    obtain before | later := ih h
    · obtain rfl | before := eq_or_mem_of_mem_insertEntry before
      · exact .inr List.mem_cons_self
      · exact .inl before
    · exact .inr (List.mem_cons_of_mem _ later)

/-- What a map of a list of entries holds comes from the list. -/
theorem mem_of_mem_ofList {entries : List (String × β)} {e : String × β}
    (h : e ∈ (ofList entries).entries) : e ∈ entries :=
  (mem_of_mem_foldl_insert h).resolve_left List.not_mem_nil

end NameMap

/-! ## Schemas -/

/-- **The form in which a kind of value is written.** -/
inductive Schema where
  | text
  | flag
  | count
  | number
  /-- One of some words. -/
  | word (words : List String)
  /-- A value or null. -/
  | optional (schema : Schema)
  | list (schema : Schema)
  /-- A value for each of some names, in the order of the names. -/
  | map (schema : Schema)
  /-- An object with exactly these members, in this order. -/
  | record (fields : List (String × Schema))
  /-- One of several forms. -/
  | oneOf (schemas : List Schema)

namespace Json

/-- A JSON value that has the form of a schema. -/
inductive Fits [Scalar α] : Schema → Json α → Prop
  | text (s : String) : Fits .text (str s)
  | flag (b : Bool) : Fits .flag (bool b)
  | count (n : ℕ) : Fits .count (int n)
  | number {x : α} (finite : Scalar.isFinite x = true) : Fits .number (real x)
  | word {words : List String} {w : String} (known : w ∈ words) : Fits (.word words) (str w)
  | absent (schema : Schema) : Fits (.optional schema) null
  | present {schema : Schema} {j : Json α} (fits : Fits schema j) : Fits (.optional schema) j
  | list {schema : Schema} {items : List (Json α)} (fits : ∀ j ∈ items, Fits schema j) :
    Fits (.list schema) (arr items)
  | map {schema : Schema} {members : List (String × Json α)}
    (sorted : members.Pairwise fun a b => a.1 < b.1) (fits : ∀ m ∈ members, Fits schema m.2) :
    Fits (.map schema) (obj members)
  | empty : Fits (.record []) (obj [])
  | field {name : String} {schema : Schema} {fields : List (String × Schema)} {j : Json α}
    {members : List (String × Json α)} (fits : Fits schema j) (rest : Fits (.record fields) (obj members)) :
    Fits (.record ((name, schema) :: fields)) (obj ((name, j) :: members))
  | oneOf {schemas : List Schema} {schema : Schema} {j : Json α} (known : schema ∈ schemas)
    (fits : Fits schema j) : Fits (.oneOf schemas) j

/-! ## Writers and readers -/

variable [Scalar α]

/-- **A writer and a reader that belong together**, on the values of which some property holds, with
the schema of what is written. -/
structure RoundTrips (schema : Schema) (write : β → Json α) (read? : Json α → Option β)
    (Proper : β → Prop) : Prop where
  /-- What is written is read back as the same value. -/
  back : ∀ x, Proper x → read? (write x) = some x
  /-- What is written has the form of the schema. -/
  fits : ∀ x, Proper x → Fits schema (write x)
  /-- No other values are read, from no JSON value. -/
  proper : ∀ j, Yields Proper (read? j)

namespace RoundTrips

variable {schema : Schema} {write : β → Json α} {read? : Json α → Option β} {Proper : β → Prop}
  (h : RoundTrips schema write read? Proper)
include h

/-- What was read, in any spelling, is written in the form of the schema and read again. -/
theorem again {j : Json α} {x : β} (read : read? j = some x) :
    Fits schema (write x) ∧ read? (write x) = some x :=
  ⟨h.fits x (h.proper j x read), h.back x (h.proper j x read)⟩

/-- A value that may be absent, of a kind that is never written as null. -/
theorem option (present : ∀ x, Proper x → write x ≠ null) :
    RoundTrips (.optional schema) (ofOption write) (option? read?) fun x => ∀ y ∈ x, Proper y where
  back x hx := by
    cases x with
    | none => rfl
    | some y =>
      have proper := hx y rfl
      rw [ofOption, option?, h.back y proper, Option.map_some]
      exact fun null => present y proper null
  fits x hx := by
    cases x with
    | none => exact .absent schema
    | some y => exact .present (h.fits y (hx y rfl))
  proper j x read := by
    cases j with
    | null =>
      obtain rfl := Option.some.inj read
      exact fun y hy => nomatch hy
    | _ =>
      obtain ⟨y, hy, rfl⟩ := Option.map_eq_some_iff.mp read
      exact fun z hz => Option.some.inj hz ▸ h.proper _ y hy

theorem list : RoundTrips (.list schema) (ofList write) (list? read?) fun xs => ∀ x ∈ xs, Proper x where
  back xs hxs := mapM_map_eq_some fun x hx => h.back x (hxs x hx)
  fits xs hxs := .list (List.forall_mem_map.mpr fun x hx => h.fits x (hxs x hx))
  proper j xs read := by
    cases j with
    | arr items => exact yields_mapM h.proper items xs read
    | _ => exact nomatch read

theorem map : RoundTrips (.map schema) (ofMap write) (map? read?) fun m => ∀ x ∈ m.values, Proper x where
  back m hm := by
    have entries : (m.entries.map fun e => (e.1, write e.2)).mapM (fun m : String × Json α =>
        (read? m.2).map fun value => (m.1, value)) = some m.entries :=
      mapM_map_eq_some fun e he => by
        rw [h.back e.2 (hm e.2 (List.mem_map_of_mem he)), Option.map_some]
    rw [ofMap, map?, entries, Option.map_some, NameMap.ofList_entries]
  fits m hm := .map (List.pairwise_map.mpr m.sorted)
    (List.forall_mem_map.mpr fun e he => h.fits e.2 (hm e.2 (List.mem_map_of_mem he)))
  proper j m read := by
    cases j with
    | obj members =>
      obtain ⟨entries, hentries, rfl⟩ := Option.map_eq_some_iff.mp read
      have each : ∀ e ∈ entries, Proper e.2 := yields_mapM (P := fun e => Proper e.2) (fun member e he => by
        obtain ⟨x, hx, rfl⟩ := Option.map_eq_some_iff.mp he
        exact h.proper _ x hx) members entries hentries
      intro x hx
      obtain ⟨e, he, rfl⟩ := List.mem_map.mp hx
      exact each e (NameMap.mem_of_mem_ofList he)
    | _ => exact nomatch read

variable {fields : Fields α} {name : String} {default x : β}

/-- What a field holds that has to be there. -/
theorem required? : Yields Proper (fields.required? name read?) :=
  .bind .any fun j _ => h.proper j

/-- What a field holds that has a default. -/
theorem optional? (proper : Proper default) : Yields Proper (fields.optional? name default read?) := by
  rw [Fields.optional?]
  split
  · exact .pure proper
  · exact h.proper _

variable (distinct : (fields.map (·.1)).Nodup) (i : ℕ) (written : fields[i]? = some (name, write x))
  (proper : Proper x)
include distinct written proper

/-- A field that has to be there is read as it was written. -/
theorem required?_back : fields.required? name read? = some x := by
  rw [Fields.required?, lookup_eq_some distinct written, Option.bind_some, h.back x proper]

/-- A field that has a default is read as it was written. -/
theorem optional?_back : fields.optional? name default read? = some x := by
  rw [Fields.optional?, lookup_eq_some distinct written]
  exact h.back x proper

end RoundTrips

theorem roundTrips_str : RoundTrips (α := α) .text str string? fun _ => True where
  back _ _ := rfl
  fits s _ := .text s
  proper _ _ _ := trivial

theorem roundTrips_bool : RoundTrips (α := α) .flag bool bool? fun _ => True where
  back _ _ := rfl
  fits b _ := .flag b
  proper _ _ _ := trivial

theorem finite?_eq_some_iff {x y : α} : finite? x = some y ↔ Scalar.isFinite x = true ∧ x = y := by
  rw [finite?, Option.ite_none_right_eq_some, Option.some.injEq]

/-- A finite number is written as a number and not as null. -/
theorem ofReal_of_finite {x : α} (h : Scalar.isFinite x = true) : ofReal x = real x := if_pos h

theorem roundTrips_real : RoundTrips (α := α) .number ofReal real? fun x => Scalar.isFinite x = true where
  back x hx := by rw [ofReal_of_finite hx, real?, finite?, if_pos hx]
  fits x hx := by
    rw [ofReal_of_finite hx]
    exact .number hx
  proper j x read := by
    cases j with
    | int n => obtain ⟨finite, rfl⟩ := finite?_eq_some_iff.mp read; exact finite
    | real y => obtain ⟨finite, rfl⟩ := finite?_eq_some_iff.mp read; exact finite
    | _ => exact nomatch read

omit [Scalar α] in
theorem natBelow?_eq_some_iff {bound n : ℕ} {j : Json α} :
    j.natBelow? bound = some n ↔ j = int n ∧ n < bound := by
  cases j with
  | int m =>
    simp only [natBelow?, Bool.and_eq_true, decide_eq_true_eq, Option.ite_none_right_eq_some,
      Option.some.injEq, int.injEq]
    omega
  | _ => simp [natBelow?]

theorem roundTrips_word64 : RoundTrips (α := α) .count ofNat word64? (· < 2 ^ 64) where
  back _ small := natBelow?_eq_some_iff.mpr ⟨rfl, small⟩
  fits n _ := .count n
  proper _ _ read := (natBelow?_eq_some_iff.mp read).2

theorem roundTrips_word32 :
    RoundTrips (α := α) .count (fun w : UInt32 => ofNat w.toNat) word32? fun _ => True where
  back w _ := by
    have small : natBelow? (Nat.pow 2 32) (ofNat (α := α) w.toNat) = some w.toNat :=
      natBelow?_eq_some_iff.mpr ⟨rfl, w.toNat_lt⟩
    rw [word32?, small, Option.map_some, UInt32.ofNat_toNat]
  fits w _ := .count w.toNat
  proper _ _ _ := trivial

end Json

/-! ## Fields of a record -/

namespace Json

/-- No two fields of a shape share a name, and each has one. -/
def Distinct (shape : List (List String)) : Prop := shape.flatten.Nodup ∧ [] ∉ shape

instance (shape : List (List String)) : Decidable (Distinct shape) :=
  inferInstanceAs (Decidable (_ ∧ _))

/-- The name that a field is written under. -/
def ownName (names : List String) : String := names.headD ""

theorem ownName_mem {names : List String} (h : names ≠ []) : ownName names ∈ names := by
  cases names with
  | nil => exact absurd rfl h
  | cons name names => exact List.mem_cons_self

/-- The names that fields are written under are distinct as well. -/
theorem Distinct.nodup {shape : List (List String)} (distinct : Distinct shape) :
    (shape.map ownName).Nodup := by
  induction shape with
  | nil => exact List.nodup_nil
  | cons field shape ih =>
    obtain ⟨nodup, named⟩ := distinct
    rw [List.flatten_cons, List.nodup_append] at nodup
    rw [List.mem_cons, not_or] at named
    refine List.nodup_cons.mpr ⟨fun mem => ?_, ih ⟨nodup.2.1, named.2⟩⟩
    obtain ⟨other, hother, same⟩ := List.mem_map.mp mem
    have present : other ≠ [] := fun empty => named.2 (empty ▸ hother)
    exact nodup.2.2 _ (ownName_mem (Ne.symm named.1)) _
      (List.mem_flatten.mpr ⟨other, hother, ownName_mem present⟩) same.symm

/-- The only member that goes by one of the names is found. -/
theorem member?_append_cons {names : List String} {before after : List (String × Json α)}
    {m : String × Json α} (hm : m.1 ∈ names) (hbefore : ∀ d ∈ before, d.1 ∉ names)
    (hafter : ∀ d ∈ after, d.1 ∉ names) :
    member? names (before ++ m :: after) = some (some m.2) := by
  have only : (before ++ m :: after).filter (fun d => names.contains d.1) = [m] := by
    rw [List.filter_append, List.filter_cons, if_pos (List.contains_iff_mem.mpr hm),
      List.filter_eq_nil_iff.mpr fun d hd => by simpa using hbefore d hd,
      List.filter_eq_nil_iff.mpr fun d hd => by simpa using hafter d hd, List.nil_append]
  rw [member?, only]

theorem mem_flatten_of_names {shape : List (List String)} (named : [] ∉ shape)
    {members : List (String × Json α)} (names : members.map (·.1) = shape.map ownName) :
    ∀ m ∈ members, m.1 ∈ shape.flatten := by
  intro m hm
  obtain ⟨field, hfield, own⟩ := List.mem_map.mp (names ▸ List.mem_map_of_mem hm)
  have present : field ≠ [] := fun empty => named (empty ▸ hfield)
  exact List.mem_flatten.mpr ⟨field, hfield, own ▸ ownName_mem present⟩

/-- Each field of the shape is found in turn; those before are known by their names not to be asked
for again. -/
theorem mapM_member? {shape : List (List String)} (distinct : Distinct shape)
    {before members : List (String × Json α)} (names : members.map (·.1) = shape.map ownName)
    (other : ∀ d ∈ before, d.1 ∉ shape.flatten) :
    shape.mapM (fun names => (member? names (before ++ members)).map fun j => (ownName names, j)) =
      some (members.map fun m => (m.1, some m.2)) := by
  induction shape generalizing before members with
  | nil =>
    obtain rfl := List.map_eq_nil_iff.mp names
    rfl
  | cons field shape ih =>
    obtain ⟨m, members, rfl, own, names⟩ := List.map_eq_cons_iff.mp names
    obtain ⟨nodup, named⟩ := distinct
    rw [List.flatten_cons, List.nodup_append] at nodup
    rw [List.mem_cons, not_or] at named
    obtain ⟨here, rest, apart⟩ := nodup
    have present : m.1 ∈ field := own ▸ ownName_mem (Ne.symm named.1)
    have after : ∀ d ∈ members, d.1 ∉ field := fun d hd inField =>
      apart _ inField _ (mem_flatten_of_names named.2 names d hd) rfl
    have earlier : ∀ d ∈ before ++ [m], d.1 ∉ shape.flatten := by
      intro d hd inShape
      obtain hd | hd := List.mem_append.mp hd
      · exact other d hd (List.mem_append_right _ inShape)
      · obtain rfl := List.mem_singleton.mp hd
        exact apart _ present _ inShape rfl
    rw [List.mapM_cons, member?_append_cons present (fun d hd inField =>
      other d hd (List.mem_append_left _ inField)) after, List.append_cons, ih ⟨rest, named.2⟩ names earlier,
      ← own]
    rfl

/-- **An object in the strict spelling has the fields that are its members**; unknown members in front
of them are left out of account. -/
theorem record?_obj {shape : List (List String)} (distinct : Distinct shape)
    (before : List (String × Json α)) {members : List (String × Json α)}
    (names : members.map (·.1) = shape.map ownName) (other : ∀ d ∈ before, d.1 ∉ shape.flatten) :
    record? shape (obj (before ++ members)) = some members := by
  have found := mapM_member? distinct names other
  have kept : (members.map fun m => (m.1, some m.2)).filterMap
      (fun f : String × Option (Json α) => f.2.map fun j => (f.1, j)) = members := by
    rw [List.filterMap_map]
    exact List.filterMap_some ..
  rw [record?]
  simp only [ownName] at found
  rw [found, Option.bind_eq_bind, Option.bind_some, kept]
  rfl

/-- Some fields with distinct names that are found in a JSON value. -/
def Finds (shape : List (List String)) (j : Json α) (fields : Fields α) : Prop :=
  (fields.map (·.1)).Nodup ∧ record? shape j = some fields

/-- In an object with the fields of the shape and no others, these are found. -/
theorem finds_written {shape : List (List String)} (distinct : Distinct shape) {fields : Fields α}
    (names : fields.map (·.1) = shape.map ownName) : Finds shape (obj fields) fields :=
  ⟨names ▸ distinct.nodup, record?_obj distinct [] names (List.forall_mem_nil _)⟩

end Json

end Allotment
