import MapLayers.Proofs.Wire.Attributes

/-!
# The literals of written attributes

Every quoted literal that is written for a record denotes a text.  Its number literals are those of
the binary64 numbers that it holds, and of the sizes of legends, which are natural numbers of 32
bits.  So what holds of these literals holds throughout (`Attributes.forall_toFields`).

This is needed twice for each record: a text is read back as JSON when all number literals in it may
be written, and it can be interpreted in full when all of them are in range.  Both are asked of
literals, and neither knows of records; `Json.Forall` carries them from the one to the other.
-/

set_option autoImplicit false

namespace MapLayers

open Json (text)
open Fields (forall_mem_ofOption forall_mem_ofList)

variable {p : Numeral → Prop}

theorem Json.forall_text (s : String) : (text s).Forall p := rfl

theorem Json.forall_real (x : Binary64) : (Json.real x).Forall p ↔ p x.toNumeral := Iff.rfl

/-! ## Boxes -/

theorem Rect.forall_toJson {r : Rect} (h : ∀ x ∈ r.reals, p x.toNumeral) : r.toJson.Forall p := by
  refine Json.forall_record ?_
  simpa [reals, Json.forall_real] using h

theorem DeclaredBox.forall_toJson {b : DeclaredBox} (h : ∀ x ∈ b.reals, p x.toNumeral) :
    b.toJson.Forall p := by
  refine Json.forall_record ?_
  simp [Crs.toJson, Json.forall_text, Rect.forall_toJson h]

/-! ## Sources -/

theorem Column.forall_toJson (c : Column) : c.toJson.Forall p := by
  refine Json.forall_record ?_
  simp only [List.forall_mem_append, List.forall_mem_singleton, forall_mem_ofOption]
  exact ⟨Json.forall_text _, fun _ _ => Json.forall_text _⟩

theorem Table.forall_toFields (t : Table) : ∀ m ∈ t.toFields, m.2.Forall p := by
  simp [toFields, Json.forall_text, Json.Forall, Json.forallItems_iff, Column.forall_toJson]

theorem Raster.forall_toJson (r : Raster) : r.toJson.Forall p := by
  refine Json.forall_record ?_
  simp only [List.forall_mem_append, List.forall_mem_singleton, forall_mem_ofOption]
  exact ⟨⟨⟨Json.forall_text _, fun _ _ => Json.forall_text _⟩, fun _ _ => Json.forall_text _⟩,
    trivial⟩

theorem Source.forall_toJson (s : Source) : s.toJson.Forall p := by
  have hpayload : s.payload.Forall p := by
    cases s with
    | file blobKey t =>
      exact Json.forall_record (List.forall_mem_cons.mpr ⟨Json.forall_text _, t.forall_toFields⟩)
    | database t => exact Json.forall_record t.forall_toFields
    | raster r => exact r.forall_toJson
  refine Json.forall_record ?_
  simpa using hpayload

/-! ## Attributes -/

theorem Authority.forall_toJson (a : Authority) : a.toJson.Forall p := by
  refine Json.forall_record ?_
  simp [Json.forall_text]

theorem forall_metadataToJson (identifier : String) : (metadataToJson identifier).Forall p := by
  refine Json.forall_record ?_
  simp [Json.forall_text]

section

variable (hnat : ∀ u : UInt32, p (.ofNat u.toNat))

include hnat

theorem Legend.forall_toJson (l : Legend) : l.toJson.Forall p := by
  refine Json.forall_record ?_
  simp [Json.forall_text, Json.nat, Json.Forall, hnat]

theorem Style.forall_toJson (s : Style) : s.toJson.Forall p := by
  refine Json.forall_record ?_
  simp only [List.forall_mem_append, List.forall_mem_singleton, forall_mem_ofOption]
  exact ⟨⟨⟨⟨Json.forall_text _, fun _ _ => Json.forall_text _⟩, fun _ _ => Json.forall_text _⟩,
    fun _ _ => Json.forall_text _⟩, fun l _ => l.forall_toJson hnat⟩

/-- **The number literals of attributes are those of their numbers**, legends apart. -/
theorem Attributes.forall_toFields {a : Attributes} (h : ∀ x ∈ a.reals, p x.toNumeral) :
    ∀ m ∈ a.toFields, m.2.Forall p := by
  obtain ⟨hboxes, hmin, hmax⟩ := a.forall_mem_reals.mp h
  simp only [toFields, List.forall_mem_append, forall_mem_ofOption, forall_mem_ofList, and_assoc]
  refine ⟨fun _ _ => Json.forall_text _, fun _ _ => Json.forall_text _,
    fun _ _ => Json.forall_text _, fun ks _ => ?_,
    fun b hb => DeclaredBox.forall_toJson (hboxes b hb), fun _ _ => trivial,
    fun a _ => a.forall_toJson, fun _ _ => forall_metadataToJson _, hmin, hmax,
    fun s _ => s.forall_toJson hnat, fun s _ => s.forall_toJson⟩
  rw [Json.Forall, Json.forallItems_iff, List.forall_mem_map]
  exact fun k _ => Json.forall_text k

theorem Attributes.forall_toJson {a : Attributes} (h : ∀ x ∈ a.reals, p x.toNumeral) :
    a.toJson.Forall p := Json.forall_record (forall_toFields hnat h)

end

end MapLayers
