import MapLayers.Proofs.Number.Literals
import MapLayers.Proofs.Wire.Fields
import MapLayers.Wire.Attributes

/-!
# Attributes that read back

Records are taken from the inside out.  Most have no numbers but small whole ones, and what is
written for them always reads back.  Rectangles and attributes also hold binary64 numbers, their
`reals`, and read back when just these do: for those there is first what the reader does, key by
key, and then what it does with what is written (`Attributes.ofFields_toFields_iff`).

Each record has two lemmas.  One says when its reader gives a record, as a conjunction over the
keys; it is where the definition of the reader is opened, and the last place that looks at it.  The
other puts in what is written, and goes along that conjunction with the lemmas about members.

A source is one of three, told apart by a key of its own, so what is written for one kind is never
read as another (`Source.ofJson_toJson`).

Attributes are also members among others, of a layer or of an entry.  Their reader sees its own keys
only (`Attributes.ofFields_congr`, `Attributes.ofFields_append`).
-/

set_option autoImplicit false

namespace MapLayers

open Json (asText asBool asReal asUInt32 asList text)
open Fields (optional_iff withDefault_eq withDefault_nil_iff)

/-! ## Boxes -/

namespace Rect

/-- The numbers of a rectangle. -/
def reals (r : Rect) : List Binary64 := [r.minX, r.minY, r.maxX, r.maxY]

theorem ofJson_eq_some_iff {j : Json} {ms : Fields} (h : Json.fields keys j = some ms) {r : Rect} :
    ofJson j = some r ↔
      ms.required "minx" asReal = some r.minX ∧ ms.required "miny" asReal = some r.minY ∧
      ms.required "maxx" asReal = some r.maxX ∧ ms.required "maxy" asReal = some r.maxY := by
  cases r
  simp only [ofJson, h, Option.bind_eq_bind, Option.bind_some, Option.bind_eq_some_iff,
    Option.pure_def, Option.some.injEq, mk.injEq]
  grind

/-- **A rectangle reads back, edge by edge.** -/
theorem ofJson_toJson_iff (r : Rect) : ofJson r.toJson = some r ↔ ∀ x ∈ r.reals, x.ReadsBack := by
  have hfields : Json.fields keys r.toJson = some _ := Json.fields_record (by decide) (.refl _)
  rw [ofJson_eq_some_iff hfields]
  simp [reals, Binary64.asReal_real_iff]

end Rect

namespace DeclaredBox

/-- The numbers of a declared box. -/
def reals (b : DeclaredBox) : List Binary64 := b.rect.reals

theorem ofJson_eq_some_iff {j : Json} {ms : Fields} (h : Json.fields keys j = some ms)
    {b : DeclaredBox} :
    ofJson j = some b ↔ ms.required "crs" Crs.ofJson = some b.crs ∧
      ms.required "bbox" Rect.ofJson = some b.rect := by
  cases b
  simp only [ofJson, h, Option.bind_eq_bind, Option.bind_some, Option.bind_eq_some_iff,
    Option.pure_def, Option.some.injEq, mk.injEq]
  grind

theorem ofJson_toJson_iff (b : DeclaredBox) :
    ofJson b.toJson = some b ↔ ∀ x ∈ b.reals, x.ReadsBack := by
  have hfields : Json.fields keys b.toJson = some _ := Json.fields_record (by decide) (.refl _)
  have hcrs : Crs.ofJson b.crs.toJson = some b.crs := rfl
  rw [ofJson_eq_some_iff hfields]
  simp [reals, hcrs, Rect.ofJson_toJson_iff]

end DeclaredBox

/-! ## Styles -/

theorem asText_text (s : String) : asText (text s) = some s := rfl

theorem Legend.ofJson_toJson (l : Legend) : ofJson l.toJson = some l := by
  have hfields : Json.fields keys l.toJson = some _ := Json.fields_record (by decide) (.refl _)
  simp [ofJson, hfields, Json.asUInt32_nat, asText_text]

namespace Style

theorem ofJson_eq_some_iff {j : Json} {ms : Fields} (h : Json.fields keys j = some ms) {s : Style} :
    ofJson j = some s ↔
      ms.withDefault "name" "" asText = some s.name ∧
      ms.optional "title" asText = some s.title ∧
      ms.optional "abstract" asText = some s.abstract ∧
      ms.optional "visualization" asText = some s.visualization ∧
      ms.optional "legend" Legend.ofJson = some s.legend := by
  cases s
  simp only [ofJson, h, Option.bind_eq_bind, Option.bind_some, Option.bind_eq_some_iff,
    Option.pure_def, Option.some.injEq, mk.injEq]
  grind

/-- **A style reads back.** -/
theorem ofJson_toJson (s : Style) : ofJson s.toJson = some s := by
  have hfields : Json.fields keys s.toJson = some _ := Json.fields_record (by decide) (by
    simp only [List.append_assoc]
    exact .cons_cons _ (Fields.sublist_ofOption _ (Fields.sublist_ofOption _
      (Fields.sublist_ofOption _ (Fields.sublist_ofOption_nil _)))))
  rw [ofJson_eq_some_iff hfields, withDefault_eq (text s.name) _ (by simp),
    optional_iff text (by simp [List.lookup_append]) nofun,
    optional_iff text (by simp [List.lookup_append]) nofun,
    optional_iff text (by simp [List.lookup_append]) nofun,
    optional_iff Legend.toJson (by simp [List.lookup_append]) nofun]
  simp [asText_text, Legend.ofJson_toJson]

end Style

/-! ## Sources -/

namespace Column

theorem ofJson_eq_some_iff {j : Json} {ms : Fields} (h : Json.fields keys j = some ms)
    {c : Column} :
    ofJson j = some c ↔ ms.required "name" asText = some c.name ∧
      ms.optional "alias" asText = some c.publishedAs := by
  cases c
  simp only [ofJson, h, Option.bind_eq_bind, Option.bind_some, Option.bind_eq_some_iff,
    Option.pure_def, Option.some.injEq, mk.injEq]
  grind

theorem ofJson_toJson (c : Column) : ofJson c.toJson = some c := by
  have hfields : Json.fields keys c.toJson = some _ :=
    Json.fields_record (by decide) (.cons_cons _ (Fields.sublist_ofOption_nil _))
  rw [ofJson_eq_some_iff hfields, optional_iff text (by simp) nofun]
  simp [asText_text]

end Column

namespace Table

theorem ofFields_eq_some_iff {r : Fields} {t : Table} :
    ofFields r = some t ↔
      r.required "tableName" asText = some t.name ∧
      r.required "geometryType" asText = some t.geometry ∧
      r.withDefault "columns" [] (asList Column.ofJson) = some t.columns := by
  cases t
  simp only [ofFields, Option.bind_eq_bind, Option.bind_eq_some_iff, Option.pure_def,
    Option.some.injEq, mk.injEq]
  grind

/-- The reader of a table sees nothing but its keys. -/
theorem ofFields_congr {r s : Fields} (h : ∀ key ∈ keys, r.lookup key = s.lookup key) :
    ofFields r = ofFields s := by
  simp (disch := decide) only [ofFields, Fields.required, Fields.withDefault, h]

theorem ofFields_toFields (t : Table) : ofFields t.toFields = some t := by
  rw [ofFields_eq_some_iff,
    withDefault_eq (.array (t.columns.map Column.toJson)) _ (by simp [toFields])]
  simp [toFields, asText_text, Json.asList_array_iff, Column.ofJson_toJson]

end Table

namespace Raster

theorem ofJson_eq_some_iff {j : Json} {ms : Fields} (h : Json.fields keys j = some ms)
    {r : Raster} :
    ofJson j = some r ↔
      ms.withDefault "blobKey" "" asText = some r.blobKey ∧
      ms.optional "resample" asText = some r.resample ∧
      ms.optional "offsite" asText = some r.offsite ∧
      ms.withDefault "getFeatureInfoIncludesClass" false asBool = some r.reportsClass := by
  cases r
  simp only [ofJson, h, Option.bind_eq_bind, Option.bind_some, Option.bind_eq_some_iff,
    Option.pure_def, Option.some.injEq, mk.injEq]
  grind

theorem ofJson_toJson (r : Raster) : ofJson r.toJson = some r := by
  have hfields : Json.fields keys r.toJson = some _ := Json.fields_record (by decide) (by
    simp only [List.append_assoc]
    exact .cons_cons _ (Fields.sublist_ofOption _ (Fields.sublist_ofOption _ (.refl _))))
  rw [ofJson_eq_some_iff hfields, withDefault_eq (text r.blobKey) _ (by simp),
    optional_iff text (by simp [List.lookup_append]) nofun,
    optional_iff text (by simp [List.lookup_append]) nofun,
    withDefault_eq (.bool r.reportsClass) _ (by simp [List.lookup_append])]
  simp [asText_text, asBool]

end Raster

namespace Source

theorem fileOfJson_payload (blobKey : String) (t : Table) :
    fileOfJson (payload (.file blobKey t)) = some (.file blobKey t) := by
  have hfields : Json.fields fileKeys (payload (.file blobKey t)) = some _ :=
    Json.fields_record (by decide) (.refl _)
  have htable : Table.ofFields (("blobKey", text blobKey) :: t.toFields) = some t := by
    rw [← Table.ofFields_toFields t]
    exact Table.ofFields_congr fun key hkey =>
      Fields.lookup_cons_ne (ne_of_mem_of_not_mem hkey (by decide)) _ _
  simp [fileOfJson, hfields, htable, asText_text]

theorem databaseOfJson_payload (t : Table) :
    databaseOfJson (payload (.database t)) = some (.database t) := by
  have hfields : Json.fields Table.keys (payload (.database t)) = some _ :=
    Json.fields_record (by decide) (.refl _)
  simp [databaseOfJson, hfields, Table.ofFields_toFields]

theorem rasterOfJson_payload (r : Raster) :
    rasterOfJson (payload (.raster r)) = some (.raster r) := by
  simp [rasterOfJson, payload, Raster.ofJson_toJson]

/-- **A source reads back**, as a source of its kind. -/
theorem ofJson_toJson (s : Source) : ofJson s.toJson = some s := by
  cases s with
  | file blobKey t => exact fileOfJson_payload blobKey t
  | database t => exact databaseOfJson_payload t
  | raster r => exact rasterOfJson_payload r

end Source

/-! ## Attributes

Attributes have a dozen keys, all of which may be left out.  Their members are in the order
of the keys, whichever are there, and what is read under a key does not depend on the others. -/

theorem Authority.ofJson_toJson (a : Authority) : ofJson a.toJson = some a := by
  have hfields : Json.fields keys a.toJson = some _ := Json.fields_record (by decide) (.refl _)
  simp [ofJson, hfields, asText_text]

theorem metadataOfJson_metadataToJson (identifier : String) :
    metadataOfJson (metadataToJson identifier) = some identifier := by
  have hfields : Json.fields ["metadataIdentifier"] (metadataToJson identifier) = some _ :=
    Json.fields_record (by decide) (.refl _)
  simp [metadataOfJson, hfields, asText_text]

namespace Attributes

/-- The numbers of attributes. -/
def reals (a : Attributes) : List Binary64 :=
  a.boxes.flatMap DeclaredBox.reals ++ (a.minScale.toList ++ a.maxScale.toList)

theorem forall_mem_reals {q : Binary64 → Prop} (a : Attributes) :
    (∀ x ∈ a.reals, q x) ↔ (∀ b ∈ a.boxes, ∀ x ∈ b.reals, q x) ∧
      (∀ x ∈ a.minScale, q x) ∧ ∀ x ∈ a.maxScale, q x := by
  rw [reals, List.forall_mem_append, List.forall_mem_append, List.forall_mem_flatMap]
  simp only [Option.mem_toList, Option.mem_def]

theorem ofFields_eq_some_iff {r : Fields} {a : Attributes} :
    ofFields r = some a ↔
      r.optional "name" asText = some a.name ∧
      r.optional "title" asText = some a.title ∧
      r.optional "abstract" asText = some a.abstract ∧
      r.optional "keywords" (asList asText) = some a.keywords ∧
      r.withDefault "boundingBoxes" [] (asList DeclaredBox.ofJson) = some a.boxes ∧
      r.optional "visible" asBool = some a.visible ∧
      r.optional "authority" Authority.ofJson = some a.authority ∧
      r.optional "datasetMetadataUrl" metadataOfJson = some a.metadata ∧
      r.optional "minScale" asReal = some a.minScale ∧
      r.optional "maxScale" asReal = some a.maxScale ∧
      r.withDefault "styles" [] (asList Style.ofJson) = some a.styles ∧
      r.optional "data" Source.ofJson = some a.source := by
  cases a
  simp only [ofFields, Option.bind_eq_bind, Option.bind_eq_some_iff, Option.pure_def,
    Option.some.injEq, mk.injEq]
  grind

/-- The members of attributes come in the order of the keys. -/
theorem sublist_toFields (a : Attributes) : (a.toFields.map (·.1)).Sublist keys := by
  simp only [toFields, List.append_assoc]
  apply_rules [Fields.sublist_ofOption, Fields.sublist_ofList, Fields.sublist_ofOption_nil]

/-- **Attributes read back** when their numbers do; nothing else can get lost. -/
theorem ofFields_toFields_iff (a : Attributes) :
    ofFields a.toFields = some a ↔ ∀ x ∈ a.reals, x.ReadsBack := by
  rw [ofFields_eq_some_iff,
    optional_iff text (by simp [toFields, List.lookup_append]) nofun,
    optional_iff text (by simp [toFields, List.lookup_append]) nofun,
    optional_iff text (by simp [toFields, List.lookup_append]) nofun,
    optional_iff (fun ks => .array (ks.map text)) (by simp [toFields, List.lookup_append]) nofun,
    withDefault_nil_iff DeclaredBox.toJson (by simp [toFields, List.lookup_append]),
    optional_iff Json.bool (by simp [toFields, List.lookup_append]) nofun,
    optional_iff Authority.toJson (by simp [toFields, List.lookup_append]) nofun,
    optional_iff metadataToJson (by simp [toFields, List.lookup_append]) nofun,
    optional_iff Json.real (by simp [toFields, List.lookup_append]) nofun,
    optional_iff Json.real (by simp [toFields, List.lookup_append]) nofun,
    withDefault_nil_iff Style.toJson (by simp [toFields, List.lookup_append]),
    optional_iff Source.toJson (by simp [toFields, List.lookup_append]) nofun]
  rw [forall_mem_reals]
  simp [asText_text, asBool, Json.asList_array_iff, DeclaredBox.ofJson_toJson_iff,
    Authority.ofJson_toJson, metadataOfJson_metadataToJson, Binary64.asReal_real_iff,
    Style.ofJson_toJson, Source.ofJson_toJson]

theorem ofJson_of_fields {j : Json} {ms : Fields} (h : Json.fields keys j = some ms) :
    ofJson j = ofFields ms := by
  rw [ofJson, h]
  rfl

theorem ofJson_toJson_iff (a : Attributes) :
    ofJson a.toJson = some a ↔ ∀ x ∈ a.reals, x.ReadsBack := by
  rw [toJson, ofJson_of_fields (Json.fields_record (by decide) a.sublist_toFields),
    ofFields_toFields_iff]

/-- The reader of attributes sees nothing but their keys. -/
theorem ofFields_congr {r s : Fields} (h : ∀ key ∈ keys, r.lookup key = s.lookup key) :
    ofFields r = ofFields s := by
  simp (disch := decide) only [ofFields, Fields.optional, Fields.withDefault, h]

/-- Members under other keys make no difference to the attributes. -/
theorem ofFields_append (r : Fields) {extra : Fields}
    (h : ∀ key ∈ keys, extra.lookup key = none) : ofFields (r ++ extra) = ofFields r :=
  ofFields_congr fun key hkey => by rw [List.lookup_append, h key hkey, Option.or_none]

end Attributes

end MapLayers
