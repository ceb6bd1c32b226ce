import MapLayers.Proofs.Json.Texts

/-!
# Members that read back

What all records have in common.  A record that is written under its keys, in their order, is read
as just those members (`Json.memberFields_record`).  From there on a value is found under its key,
and it reads back when what is written for it does: one lemma for each way in which a value may be
given, or left out.

* A value that is always there is found by `Fields.required_cons_self`, past other keys by
  `Fields.required_cons_ne`.
* A value that may be left out may also be `null`, so it has to be written as something else
  (`Fields.optional_iff`).
* A list that is left out when it is empty has the empty list as its default
  (`Fields.withDefault_nil_iff`).

These are equivalences wherever the values in question may fail to read back, as numbers may; then a
record reads back *just* when its parts do, and it can be said of a whole description which numbers
stand in the way.
-/

set_option autoImplicit false

namespace MapLayers

namespace Json

/-! ## The members of a record -/

theorem namedMembers_record (ms : Fields) :
    namedMembers (ms.map fun (key, value) => (some key, value)) = some ms := by
  rw [namedMembers]
  induction ms with
  | nil => rfl
  | cons m ms ih =>
    rw [List.map_cons, List.mapM_cons, ih]
    rfl

/-- **Members under the keys of a record, in their order, are all read, and nothing else is.** -/
theorem memberFields_record {keys : List String} (hkeys : keys.Nodup) {ms : Fields}
    (hms : (ms.map (·.1)).Sublist keys) :
    memberFields keys (ms.map fun (key, value) => (some key, value)) = some ms := by
  have hknown : ms.filter (fun m => keys.contains m.1) = ms :=
    List.filter_eq_self.mpr fun m hm =>
      List.contains_iff_mem.mpr (hms.subset (List.mem_map_of_mem hm))
  rw [memberFields, namedMembers_record]
  show (if ((ms.filter fun m => keys.contains m.1).map (·.1)).Nodup
    then some (ms.filter fun m => keys.contains m.1) else none) = some ms
  rw [hknown, if_pos (hms.nodup hkeys)]

theorem record_ne_null (ms : Fields) : record ms ≠ .null := nofun

theorem fields_record {keys : List String} (hkeys : keys.Nodup) {ms : Fields}
    (hms : (ms.map (·.1)).Sublist keys) : fields keys (record ms) = some ms :=
  memberFields_record hkeys hms

/-! ## Lists -/

variable {α : Type} {read : Json → Option α} {write : α → Json}

/-- A list reads back when its items do. -/
theorem asList_array_iff (xs : List α) :
    asList read (.array (xs.map write)) = some xs ↔ ∀ x ∈ xs, read (write x) = some x := by
  rw [asList]
  induction xs with
  | nil => simp
  | cons x xs ih =>
    rw [List.map_cons, List.mapM_cons, List.forall_mem_cons, ← ih]
    constructor
    · intro h
      obtain ⟨y, hy, h⟩ := Option.bind_eq_some_iff.mp h
      obtain ⟨ys, hys, h⟩ := Option.bind_eq_some_iff.mp h
      obtain ⟨rfl, rfl⟩ := List.cons.inj (Option.some.inj h)
      exact ⟨hy, hys⟩
    · rintro ⟨hx, hxs⟩
      rw [hx, hxs]
      rfl

end Json

namespace Fields

open Json (asList asList_array_iff)

variable {α : Type} {key key' : String} {keys : List String} {r rest : Fields}
  {read : Json → Option α} {write : α → Json}

/-! ## Keys -/

/-- A value that may be left out takes up its key, or passes it over. -/
theorem sublist_ofOption (o : Option α) (h : (rest.map (·.1)).Sublist keys) :
    ((ofOption key write o ++ rest).map (·.1)).Sublist (key :: keys) := by
  cases o with
  | none => exact h.cons key
  | some x => exact h.cons_cons key

theorem sublist_ofOption_nil (o : Option α) :
    ((ofOption key write o).map (·.1)).Sublist [key] := by
  cases o with
  | none => exact List.nil_sublist _
  | some x => exact List.Sublist.refl _

theorem sublist_ofList (xs : List α) (h : (rest.map (·.1)).Sublist keys) :
    ((ofList key write xs ++ rest).map (·.1)).Sublist (key :: keys) := by
  cases xs with
  | nil => exact h.cons key
  | cons x xs => exact h.cons_cons key

/-! ## Looking up

A key is found behind the members of other keys, which are passed over. -/

@[simp] theorem lookup_ofOption (o : Option α) :
    (ofOption key write o).lookup key = o.map write := by
  cases o with
  | none => rfl
  | some x => rw [ofOption, List.lookup_cons_self, Option.map_some]

@[simp] theorem lookup_cons_ne (h : key' ≠ key) (value : Json) (r : Fields) :
    List.lookup key' ((key, value) :: r) = r.lookup key' := by
  rw [List.lookup_cons, beq_false_of_ne h]

@[simp] theorem lookup_ofOption_ne (h : key' ≠ key) (o : Option α) :
    (ofOption key write o).lookup key' = none := by
  cases o with
  | none => rfl
  | some x => exact lookup_cons_ne h _ []

@[simp] theorem lookup_ofList_ne (h : key' ≠ key) (xs : List α) :
    (ofList key write xs).lookup key' = none := by
  cases xs with
  | nil => rfl
  | cons x xs => exact lookup_cons_ne h _ []

/-! ## Reading back

A value that has to be given, one that may be left out, and a list that is left out when it is
empty. -/

theorem required_eq (value : Json) (h : r.lookup key = some value) :
    r.required key read = read value := by
  rw [required, h]
  rfl

@[simp] theorem required_cons_self (value : Json) (r : Fields) :
    required ((key, value) :: r) key read = read value :=
  required_eq value List.lookup_cons_self

@[simp] theorem required_cons_ne (h : key' ≠ key) (value : Json) (r : Fields) :
    required ((key, value) :: r) key' read = r.required key' read := by
  rw [required, lookup_cons_ne h, required]

theorem withDefault_eq (value : Json) (default : α) (h : r.lookup key = some value) :
    r.withDefault key default read = read value := by
  rw [withDefault, h]

theorem optional_of_ne_null {value : Json} (h : r.lookup key = some value) (hne : value ≠ .null) :
    r.optional key read = (read value).map some := by
  rw [optional, h]
  split
  · rename_i heq
    exact nomatch heq
  · rename_i heq
    exact absurd (Option.some.inj heq) hne
  · rename_i heq
    rw [Option.some.inj heq]

/-- A value that may be left out reads back when what is written for it does. -/
theorem optional_iff (write : α → Json) {o : Option α} (h : r.lookup key = o.map write)
    (hnull : ∀ x, write x ≠ .null) :
    r.optional key read = some o ↔ ∀ x ∈ o, read (write x) = some x := by
  cases o with
  | none =>
    rw [optional, h]
    simp
  | some x =>
    rw [optional_of_ne_null h (hnull x)]
    simp

/-- A list that is left out when it is empty reads back when its items do. -/
theorem withDefault_nil_iff (write : α → Json) {xs : List α}
    (h : r.lookup key = (ofList key write xs).lookup key) :
    r.withDefault key [] (asList read) = some xs ↔ ∀ x ∈ xs, read (write x) = some x := by
  rw [withDefault, h]
  cases xs with
  | nil => simp [ofList]
  | cons x xs =>
    rw [ofList, List.lookup_cons_self]
    · exact asList_array_iff (x :: xs)
    · exact List.cons_ne_nil x xs

/-! ## Literals -/

variable {p : Numeral → Prop}

theorem forall_mem_ofOption (o : Option α) :
    (∀ m ∈ ofOption key write o, m.2.Forall p) ↔ ∀ x ∈ o, (write x).Forall p := by
  cases o <;> simp [ofOption]

theorem forall_mem_ofList (xs : List α) :
    (∀ m ∈ ofList key write xs, m.2.Forall p) ↔ ∀ x ∈ xs, (write x).Forall p := by
  cases xs with
  | nil => simp [ofList]
  | cons x xs => simp [ofList, Json.Forall, Json.forallItems_iff]

end Fields

end MapLayers
