import MapLayers.Proofs.Number.Short
import MapLayers.Proofs.Wire.Layers
import MapLayers.Samples
import MapLayers.Wire.Service

/-!
# Records that read back

What is written for a record on one line is read, as a record of the same kind, as the record that
it was written for (`Record.ofText_compact_iff`).  In particular a flat list of entries is never
taken for a nested layer, no edge of a rectangle for another, and nothing that is absent for
something empty.

Two things are asked.  The text nests no deeper than a reader goes.  And the numbers of the record
read back, each on its own; that is needed, too, for a number that is read as its neighbour is not
the number that was written, and there are such numbers (`Binary64.exists_not_readsBack`).  Those
with short literals are not among them (`Record.ofText_compact_of_short`).

`Record` is the sum of the kinds of things that have a text of their own, and `Record.Kind` says
what a text is to be read as: one and the same text can often be read as several kinds.  So the
theorem is one statement about all of them, with `Record.reals` for the numbers of any.

The text is dealt with once (`Record.ofText_compact`).  What remains is a matter of values, and goes
kind by kind to the lemmas about attributes, layers, settings and descriptions.
-/

set_option autoImplicit false

namespace MapLayers

open Json (asBool)
open Fields (optional_iff withDefault_eq)

/-! ## Settings -/

theorem ServiceKind.ofJson_toJson (k : ServiceKind) : ofJson k.toJson = some k := by
  cases k <;> rfl

namespace Settings

theorem ofJson_eq_some_iff {j : Json} {ms : Fields} (h : Json.fields keys j = some ms)
    {s : Settings} :
    ofJson j = some s ↔
      ms.withDefault "primaryCrs" .standard Crs.ofJson = some s.primary ∧
      ms.withDefault "staticConfig" false asBool = some s.staticDrawing ∧
      ms.withDefault "rewriteGroupToDataLayers" false asBool = some s.rewritesGroups ∧
      ms.withDefault "validateChildStyleNameEqual" true asBool = some s.comparesStyles ∧
      ms.withDefault "serviceKind" .rasterCapable ServiceKind.ofJson = some s.kind := by
  cases s
  simp only [ofJson, h, Option.bind_eq_bind, Option.bind_some, Option.bind_eq_some_iff,
    Option.pure_def, Option.some.injEq, mk.injEq]
  grind

/-- **Settings read back.** -/
theorem ofJson_toJson (s : Settings) : ofJson s.toJson = some s := by
  have hfields : Json.fields keys s.toJson = some _ := Json.fields_record (by decide) (.refl _)
  rw [ofJson_eq_some_iff hfields, withDefault_eq s.primary.toJson _ (by simp),
    withDefault_eq (.bool s.staticDrawing) _ (by simp),
    withDefault_eq (.bool s.rewritesGroups) _ (by simp),
    withDefault_eq (.bool s.comparesStyles) _ (by simp),
    withDefault_eq s.kind.toJson _ (by simp)]
  exact ⟨rfl, rfl, rfl, rfl, s.kind.ofJson_toJson⟩

theorem forall_toJson {p : Numeral → Prop} (s : Settings) : s.toJson.Forall p := by
  refine Json.forall_record ?_
  simp only [List.forall_mem_cons]
  exact ⟨Json.forall_text _, trivial, trivial, trivial, Json.forall_text _,
    fun _ h => nomatch h⟩

end Settings

/-! ## Layers in either form -/

namespace LayerInput

/-- The numbers of the layers. -/
def reals : LayerInput → List Binary64
  | .flat es => Entry.listReals es
  | .nested l => l.reals

/-- **Layers read back in the form in which they are given.** -/
theorem ofJson_toJson_iff {l : LayerInput} {levels : Nat} (h : l.toJson.nesting ≤ levels) :
    ofJson levels l.toJson = some l ↔ ∀ x ∈ l.reals, x.ReadsBack := by
  cases l with
  | flat es =>
    rw [reals, ← Entry.listOfJson_listToJson_iff h, toJson, Entry.listToJson, ofJson]
    simp
  | nested l =>
    rw [reals, ← Layer.ofJson_toJson_iff h, toJson]
    cases l with
    | node a cs =>
      rw [Layer.toJson, Json.record, ofJson]
      simp

theorem forall_toJson {p : Numeral → Prop} (hnat : ∀ u : UInt32, p (.ofNat u.toNat))
    {l : LayerInput} (h : ∀ x ∈ l.reals, p x.toNumeral) : l.toJson.Forall p := by
  cases l with
  | flat es => exact Entry.forall_listToJson hnat h
  | nested l => exact l.forall_toJson hnat h

end LayerInput

/-! ## Descriptions -/

namespace Description

/-- The numbers of a description. -/
def reals (d : Description) : List Binary64 :=
  d.top.toList.flatMap Attributes.reals ++ d.layers.reals

theorem forall_mem_reals {q : Binary64 → Prop} (d : Description) :
    (∀ x ∈ d.reals, q x) ↔ (∀ a ∈ d.top, ∀ x ∈ a.reals, q x) ∧ ∀ x ∈ d.layers.reals, q x := by
  rw [reals, List.forall_mem_append, List.forall_mem_flatMap]
  simp only [Option.mem_toList, Option.mem_def]

theorem ofJson_eq_some_iff {j : Json} {ms : Fields} (h : Json.fields keys j = some ms)
    {d : Description} :
    ofJson j = some d ↔
      ms.withDefault "config" {} Settings.ofJson = some d.settings ∧
      ms.optional "top" Attributes.ofJson = some d.top ∧
      ms.required "layers" (LayerInput.ofJson (Json.maxNesting - 1)) = some d.layers := by
  cases d
  simp only [ofJson, h, Option.bind_eq_bind, Option.bind_some, Option.bind_eq_some_iff,
    Option.pure_def, Option.some.injEq, mk.injEq]
  grind

theorem ofJson_toJson_iff {d : Description} (h : d.toJson.nesting ≤ Json.maxNesting) :
    ofJson d.toJson = some d ↔ ∀ x ∈ d.reals, x.ReadsBack := by
  have hfields : Json.fields keys d.toJson = some _ := Json.fields_record (by decide) (by
    simp only [List.append_assoc]
    exact .cons_cons _ (Fields.sublist_ofOption _ (.refl _)))
  have hmember : ("layers", d.layers.toJson) ∈ [("config", d.settings.toJson)]
      ++ Fields.ofOption "top" Attributes.toJson d.top ++ [("layers", d.layers.toJson)] :=
    List.mem_append_right _ (List.mem_singleton_self _)
  have hlayers : d.layers.toJson.nesting ≤ Json.maxNesting - 1 :=
    Nat.le_sub_one_of_lt (Nat.lt_of_lt_of_le (Json.nesting_lt_record hmember) h)
  rw [ofJson_eq_some_iff hfields, withDefault_eq d.settings.toJson _ (by simp),
    optional_iff Attributes.toJson (by simp [List.lookup_append])
      (fun a => Json.record_ne_null a.toFields),
    Fields.required_eq d.layers.toJson (by simp [List.lookup_append]),
    LayerInput.ofJson_toJson_iff hlayers, forall_mem_reals]
  simp only [Settings.ofJson_toJson, Attributes.ofJson_toJson_iff, true_and]

theorem forall_toJson {p : Numeral → Prop} (hnat : ∀ u : UInt32, p (.ofNat u.toNat))
    {d : Description} (h : ∀ x ∈ d.reals, p x.toNumeral) : d.toJson.Forall p := by
  obtain ⟨htop, hlayers⟩ := d.forall_mem_reals.mp h
  refine Json.forall_record ?_
  simp only [List.forall_mem_append, List.forall_mem_singleton, Fields.forall_mem_ofOption]
  exact ⟨⟨d.settings.forall_toJson, fun a ha => a.forall_toJson hnat (htop a ha)⟩,
    d.layers.forall_toJson hnat hlayers⟩

end Description

/-! ## Records in general

The sum of all kinds, with one case for each in every proof. -/

/-- What is written as a text of its own. -/
inductive Record where
  | description (d : Description)
  | layers (l : LayerInput)
  | layer (l : Layer)
  | entry (e : Entry)
  | attributes (a : Attributes)
  | settings (s : Settings)
  | style (s : Style)
  | box (b : DeclaredBox)
  | source (s : Source)

namespace Record

/-- What a text can be read as. -/
inductive Kind where
  | description
  | layers
  | layer
  | entry
  | attributes
  | settings
  | style
  | box
  | source

/-- Read a record of a kind. -/
def Kind.ofJson (j : Json) : Kind → Option Record
  | .description => (Description.ofJson j).map .description
  | .layers => (LayerInput.ofJson Json.maxNesting j).map .layers
  | .layer => (Layer.ofJson Json.maxNesting j).map .layer
  | .entry => (Entry.ofJson Json.maxNesting j).map .entry
  | .attributes => (Attributes.ofJson j).map .attributes
  | .settings => (Settings.ofJson j).map .settings
  | .style => (Style.ofJson j).map .style
  | .box => (DeclaredBox.ofJson j).map .box
  | .source => (Source.ofJson j).map .source

/-- Read the text of a record of a kind. -/
def Kind.ofText (k : Kind) (text : String) : Option Record := (Json.read text).bind (ofJson · k)

/-- The kind of a record. -/
def kind : Record → Kind
  | .description _ => .description
  | .layers _ => .layers
  | .layer _ => .layer
  | .entry _ => .entry
  | .attributes _ => .attributes
  | .settings _ => .settings
  | .style _ => .style
  | .box _ => .box
  | .source _ => .source

/-- Write a record. -/
def toJson : Record → Json
  | .description d => d.toJson
  | .layers l => l.toJson
  | .layer l => l.toJson
  | .entry e => e.toJson
  | .attributes a => a.toJson
  | .settings s => s.toJson
  | .style s => s.toJson
  | .box b => b.toJson
  | .source s => s.toJson

/-- The numbers of a record. -/
def reals : Record → List Binary64
  | .description d => d.reals
  | .layers l => l.reals
  | .layer l => l.reals
  | .entry e => e.reals
  | .attributes a => a.reals
  | .settings _ => []
  | .style _ => []
  | .box b => b.reals
  | .source _ => []

theorem forall_toJson {p : Numeral → Prop} (hnat : ∀ u : UInt32, p (.ofNat u.toNat))
    {r : Record} (h : ∀ x ∈ r.reals, p x.toNumeral) : r.toJson.Forall p := by
  cases r with
  | description d => exact d.forall_toJson hnat h
  | layers l => exact l.forall_toJson hnat h
  | layer l => exact l.forall_toJson hnat h
  | entry e => exact e.forall_toJson hnat h
  | attributes a => exact a.forall_toJson hnat h
  | settings s => exact s.forall_toJson
  | style s => exact s.forall_toJson hnat
  | box b => exact b.forall_toJson h
  | source s => exact s.forall_toJson

theorem map_eq_some_iff {α : Type} {f : α → Record} {x : α} (hf : ∀ y, f y = f x → y = x)
    {read : Option α} : read.map f = some (f x) ↔ read = some x := by
  rw [Option.map_eq_some_iff]
  exact ⟨fun ⟨y, hy, heq⟩ => hf y heq ▸ hy, fun h => ⟨x, h, rfl⟩⟩

theorem ofJson_toJson_iff {r : Record} (h : r.toJson.nesting ≤ Json.maxNesting) :
    r.kind.ofJson r.toJson = some r ↔ ∀ x ∈ r.reals, x.ReadsBack := by
  cases r with
  | description d =>
    exact (map_eq_some_iff fun _ => description.inj).trans (d.ofJson_toJson_iff h)
  | layers l => exact (map_eq_some_iff fun _ => layers.inj).trans (l.ofJson_toJson_iff h)
  | layer l => exact (map_eq_some_iff fun _ => layer.inj).trans (l.ofJson_toJson_iff h)
  | entry e => exact (map_eq_some_iff fun _ => entry.inj).trans (e.ofJson_toJson_iff h)
  | attributes a => exact (map_eq_some_iff fun _ => attributes.inj).trans a.ofJson_toJson_iff
  | box b => exact (map_eq_some_iff fun _ => box.inj).trans b.ofJson_toJson_iff
  | settings s =>
    exact iff_of_true ((map_eq_some_iff fun _ => settings.inj).mpr s.ofJson_toJson) nofun
  | style s => exact iff_of_true ((map_eq_some_iff fun _ => style.inj).mpr s.ofJson_toJson) nofun
  | source s => exact iff_of_true ((map_eq_some_iff fun _ => source.inj).mpr s.ofJson_toJson) nofun

/-- Reading the text of a record comes down to reading what was written as a text. -/
theorem ofText_compact (r : Record) : r.kind.ofText r.toJson.compact = r.kind.ofJson r.toJson := by
  have hlegible : r.toJson.Forall Numeral.Legible :=
    forall_toJson (fun u => Numeral.legible_ofNat u.toNat) fun x _ => x.legible_toNumeral
  rw [Kind.ofText, Json.read_compact hlegible, Option.bind_some]

/-- **A record reads back when its numbers do.**  The text that is written for a record and nests no
deeper than allowed is read, as a record of its kind, as the record itself just if every number in
the record is read as itself. -/
theorem ofText_compact_iff (r : Record) (h : r.toJson.nesting ≤ Json.maxNesting) :
    r.kind.ofText r.toJson.compact = some r ↔ ∀ x ∈ r.reals, x.ReadsBack := by
  rw [ofText_compact]
  exact ofJson_toJson_iff h

/-- The description of the topographic service reads back. -/
theorem ofText_compact_service :
    (Record.description Samples.serviceDescription).toJson.nesting ≤ Json.maxNesting ∧
      Kind.description.ofText (Description.toJson Samples.serviceDescription).compact
        = some (.description Samples.serviceDescription) :=
  ⟨by decide +kernel, (ofText_compact_iff (.description Samples.serviceDescription)
    (by decide +kernel)).mpr (by decide +kernel)⟩

/-- A record reads back whose numbers have short literals: up to fifteen digits, say, and no
exponent. -/
theorem ofText_compact_of_short {r : Record} (h : r.toJson.nesting ≤ Json.maxNesting)
    (hshort : ∀ x ∈ r.reals, x.toNumeral.Short) : r.kind.ofText r.toJson.compact = some r := by
  rw [ofText_compact]
  exact (ofJson_toJson_iff h).mpr fun x hx => Binary64.readsBack_of_short (hshort x hx)

end Record

end MapLayers
