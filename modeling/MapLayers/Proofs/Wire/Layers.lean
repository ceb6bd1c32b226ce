import MapLayers.Proofs.Wire.Literals
import MapLayers.Wire.Layer

/-!
# Layers and entries that read back

The members of a layer are those of its attributes, and `layers` if there is anything below it;
those of an entry are those of its attributes, and `group` if it belongs under some layer.  Neither
key is a key of attributes, so that what is read under the one kind of key is never taken for the
other (`Layer.decode_node`).

A layer is read where so many levels of nesting are left, and only if all of it can be interpreted.
That it nests no deeper is all that is asked for here (`Layer.ofJson_toJson_iff`): that its numbers
are in range follows when they read back (`Binary64.ReadsBack.inRange`).

Reading is by recursion over the layer and the layers below it, and so are the proofs, with one
statement for a layer and one for a list of siblings.  Entries need no recursion.  A list of them is
read item by item (`Entry.listOfJson_listToJson_iff`), and the numbers that stand in the way are
those of all items together.
-/

set_option autoImplicit false

namespace MapLayers

open Json (asText asList asList_array_iff text InRange interpretable_of_nesting)
open Fields (optional_iff)

/-- A number that reads back is in range. -/
theorem Binary64.ReadsBack.inRange {x : Binary64} (h : x.ReadsBack) : InRange x.toNumeral := by
  rw [InRange, h]
  rfl

theorem Numeral.inRange_ofNat (u : UInt32) : InRange (.ofNat u.toNat) := by
  have hlt : u.toNat < Nat.pow 2 64 := Nat.lt_trans u.toNat_lt (by decide)
  rw [InRange, Numeral.toBinary64_ofNat hlt]
  exact Binary64.isSome_ofNat hlt

/-- What is read only where all of it can be interpreted: it is enough that it nests no deeper than
allowed, when it reads back just if its numbers do. -/
theorem Json.interpreted_iff {α : Type} {j : Json} {levels : Nat} {read : Option α} {x : α}
    {reals : List Binary64} (hnesting : j.nesting ≤ levels)
    (hforall : (∀ x ∈ reals, InRange x.toNumeral) → j.Forall InRange)
    (hread : read = some x ↔ ∀ x ∈ reals, x.ReadsBack) :
    (if j.interpretable levels then read else none) = some x ↔ ∀ x ∈ reals, x.ReadsBack := by
  rw [← hread]
  constructor
  · intro h
    split at h
    · exact h
    · exact nomatch h
  · intro h
    have hrange := fun x hx => (hread.mp h x hx).inRange
    rw [if_pos (interpretable_of_nesting j (hforall hrange) hnesting)]
    exact h

/-! ## Layers

The reader of a layer goes through the members twice, once for the attributes and once for the
layers below.  Neither sees the keys of the other. -/

namespace Layer

mutual

/-- The numbers of a layer and of all that is below it. -/
def reals : Layer → List Binary64
  | .node a cs => a.reals ++ listReals cs

/-- The numbers of some layers and of all that is below them. -/
def listReals : List Layer → List Binary64
  | [] => []
  | c :: cs => c.reals ++ listReals cs

end

theorem sublist_childFields (cs : List Layer) :
    ((childFields cs).map (·.1)).Sublist ["layers"] := by
  cases cs with
  | nil => exact List.nil_sublist _
  | cons c cs => exact .refl _

/-- No key of attributes is taken by the layers below. -/
theorem lookup_childFields (cs : List Layer) :
    ∀ key ∈ Attributes.keys, (childFields cs).lookup key = none := by
  intro key hkey
  cases cs with
  | nil => rfl
  | cons c cs => exact Fields.lookup_cons_ne (ne_of_mem_of_not_mem hkey (by decide)) _ _

/-- The members before `layers` are passed over. -/
theorem decodeChildren_append {ms : Fields} (h : "layers" ∉ ms.map (·.1))
    (rest : List (Quoted × Json)) :
    decodeChildren ((ms.map fun (key, value) => (some key, value)) ++ rest)
      = decodeChildren rest := by
  induction ms with
  | nil => rfl
  | cons m ms ih =>
    rw [List.map_cons, List.mem_cons, not_or] at h
    rw [List.map_cons, List.cons_append, decodeChildren, ih h.2]
    exact if_neg fun heq => h.1 (Option.some.inj heq).symm

theorem decodeChildren_childFields (cs : List Layer) :
    decodeChildren ((childFields cs).map fun (key, value) => (some key, value))
      = decodeItems (listToJson cs) := by
  cases cs with
  | nil => rfl
  | cons c cs => rfl

theorem decode_object {members : List (Quoted × Json)} {ms : Fields}
    (h : Json.memberFields keys members = some ms) :
    decode (.object members) = (Attributes.ofFields ms).bind fun a =>
      (decodeChildren members).bind fun cs => some (.node a cs) := by
  rw [decode, h]
  rfl

/-- **The attributes of a layer and the layers below are read apart from each other.** -/
theorem decode_node (a : Attributes) (cs : List Layer) :
    decode (toJson (.node a cs)) = (Attributes.ofFields a.toFields).bind fun a =>
      (decodeItems (listToJson cs)).bind fun cs => some (.node a cs) := by
  have hkeys : ((a.toFields ++ childFields cs).map (·.1)).Sublist keys := by
    rw [List.map_append]
    exact a.sublist_toFields.append (sublist_childFields cs)
  have hlayers : "layers" ∉ a.toFields.map (·.1) := fun h =>
    absurd (a.sublist_toFields.subset h) (by decide)
  rw [toJson, Json.record, decode_object (Json.memberFields_record (by decide) hkeys),
    Attributes.ofFields_append _ (lookup_childFields cs), List.map_append,
    decodeChildren_append hlayers, decodeChildren_childFields]

mutual

/-- A layer reads back when its numbers do. -/
theorem decode_toJson_iff : ∀ l : Layer,
    decode l.toJson = some l ↔ ∀ x ∈ l.reals, x.ReadsBack
  | .node a cs => by
    rw [reals, List.forall_mem_append, ← Attributes.ofFields_toFields_iff,
      ← decodeItems_listToJson_iff cs, decode_node, Option.bind_eq_some_iff]
    constructor
    · rintro ⟨a', ha, hnode⟩
      obtain ⟨cs', hcs, heq⟩ := Option.bind_eq_some_iff.mp hnode
      obtain ⟨rfl, rfl⟩ := Layer.node.inj (Option.some.inj heq)
      exact ⟨ha, hcs⟩
    · rintro ⟨ha, hcs⟩
      exact ⟨a, ha, by rw [hcs, Option.bind_some]⟩

/-- Layers read back when their numbers do. -/
theorem decodeItems_listToJson_iff : ∀ cs : List Layer,
    decodeItems (listToJson cs) = some cs ↔ ∀ x ∈ listReals cs, x.ReadsBack
  | [] => by simp [listToJson, decodeItems, listReals]
  | c :: cs => by
    rw [listReals, List.forall_mem_append, ← decode_toJson_iff c, ← decodeItems_listToJson_iff cs,
      listToJson, decodeItems]
    constructor
    · intro h
      obtain ⟨c', hc, h⟩ := Option.bind_eq_some_iff.mp h
      obtain ⟨cs', hcs, h⟩ := Option.bind_eq_some_iff.mp h
      obtain ⟨rfl, rfl⟩ := List.cons.inj (Option.some.inj h)
      exact ⟨hc, hcs⟩
    · rintro ⟨hc, hcs⟩
      rw [hc, hcs]
      rfl

end

variable {p : Numeral → Prop}

mutual

/-- The number literals of a layer are those of its numbers, legends apart. -/
theorem forall_toJson (hnat : ∀ u : UInt32, p (.ofNat u.toNat)) : ∀ l : Layer,
    (∀ x ∈ l.reals, p x.toNumeral) → l.toJson.Forall p
  | .node a cs, h => by
    obtain ⟨ha, hcs⟩ := List.forall_mem_append.mp h
    refine Json.forall_record (List.forall_mem_append.mpr ⟨a.forall_toFields hnat ha, ?_⟩)
    cases cs with
    | nil => exact fun _ hm => nomatch hm
    | cons c cs =>
      exact List.forall_mem_singleton.mpr (forallItems_listToJson hnat (c :: cs) hcs)

theorem forallItems_listToJson (hnat : ∀ u : UInt32, p (.ofNat u.toNat)) : ∀ cs : List Layer,
    (∀ x ∈ listReals cs, p x.toNumeral) → Json.ForallItems p (listToJson cs)
  | [], _ => trivial
  | c :: cs, h => by
    obtain ⟨hc, hcs⟩ := List.forall_mem_append.mp h
    exact ⟨forall_toJson hnat c hc, forallItems_listToJson hnat cs hcs⟩

end

/-- **A layer that nests no deeper than allowed reads back** when its numbers do. -/
theorem ofJson_toJson_iff {l : Layer} {levels : Nat} (h : l.toJson.nesting ≤ levels) :
    ofJson levels l.toJson = some l ↔ ∀ x ∈ l.reals, x.ReadsBack :=
  Json.interpreted_iff h (forall_toJson Numeral.inRange_ofNat l) (decode_toJson_iff l)

end Layer

/-! ## Entries -/

namespace Entry

/-- The numbers of an entry. -/
def reals (e : Entry) : List Binary64 := e.attributes.reals

theorem decode_eq_some_iff {j : Json} {ms : Fields} (h : Json.objectFields keys j = some ms)
    {e : Entry} :
    decode j = some e ↔ Attributes.ofFields ms = some e.attributes ∧
      ms.optional "group" asText = some e.parent := by
  cases e
  simp only [decode, h, Option.bind_eq_bind, Option.bind_some, Option.bind_eq_some_iff,
    Option.pure_def, Option.some.injEq, mk.injEq]
  grind

/-- **An entry reads back** when its numbers do, with the layer that it belongs under. -/
theorem decode_toJson_iff (e : Entry) : decode e.toJson = some e ↔ ∀ x ∈ e.reals, x.ReadsBack := by
  have hkeys : ((e.attributes.toFields ++ Fields.ofOption "group" text e.parent).map
      (·.1)).Sublist keys := by
    rw [List.map_append]
    exact e.attributes.sublist_toFields.append (Fields.sublist_ofOption_nil e.parent)
  have hfields : Json.objectFields keys e.toJson = some _ :=
    Json.memberFields_record (by decide) hkeys
  have hgroup : ∀ key ∈ Attributes.keys,
      (Fields.ofOption "group" text e.parent).lookup key = none := fun key hkey =>
    Fields.lookup_ofOption_ne (ne_of_mem_of_not_mem hkey (by decide)) _
  rw [decode_eq_some_iff hfields, Attributes.ofFields_append _ hgroup,
    optional_iff text (by simp [Attributes.toFields, List.lookup_append]) nofun,
    Attributes.ofFields_toFields_iff]
  exact and_iff_left fun s _ => asText_text s

theorem forall_toJson {p : Numeral → Prop} (hnat : ∀ u : UInt32, p (.ofNat u.toNat)) {e : Entry}
    (h : ∀ x ∈ e.reals, p x.toNumeral) : e.toJson.Forall p :=
  Json.forall_record (List.forall_mem_append.mpr ⟨e.attributes.forall_toFields hnat h,
    (Fields.forall_mem_ofOption e.parent).mpr fun s _ => Json.forall_text s⟩)

/-- An entry that nests no deeper than allowed reads back when its numbers do. -/
theorem ofJson_toJson_iff {e : Entry} {levels : Nat} (h : e.toJson.nesting ≤ levels) :
    ofJson levels e.toJson = some e ↔ ∀ x ∈ e.reals, x.ReadsBack :=
  Json.interpreted_iff h (forall_toJson Numeral.inRange_ofNat) (decode_toJson_iff e)

/-- The numbers of some entries. -/
def listReals (es : List Entry) : List Binary64 := es.flatMap reals

theorem forall_listToJson {p : Numeral → Prop} (hnat : ∀ u : UInt32, p (.ofNat u.toNat))
    {es : List Entry} (h : ∀ x ∈ listReals es, p x.toNumeral) : (listToJson es).Forall p := by
  rw [listToJson, Json.Forall, Json.forallItems_iff, List.forall_mem_map]
  exact fun e he => forall_toJson hnat (List.forall_mem_flatMap.mp h e he)

/-- **A list of entries that nests no deeper than allowed reads back** when its numbers do. -/
theorem listOfJson_listToJson_iff {es : List Entry} {levels : Nat}
    (h : (listToJson es).nesting ≤ levels) :
    listOfJson levels (listToJson es) = some es ↔ ∀ x ∈ listReals es, x.ReadsBack := by
  refine Json.interpreted_iff h (forall_listToJson Numeral.inRange_ofNat) ?_
  rw [listToJson, asList_array_iff, listReals, List.forall_mem_flatMap]
  exact forall₂_congr fun e _ => decode_toJson_iff e

end Entry

end MapLayers
