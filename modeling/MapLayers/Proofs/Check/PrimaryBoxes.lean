import MapLayers.Evaluation
import MapLayers.Proofs.Check.Primary

/-!
# Accepted layers have primary boxes

A service publishes every layer with a box in its primary system.  No single step sees to that.  The
check asks for a declared or inherited box in any primary system but the standard one; boxes are
inherited from the nearest ancestor that declares them; and in the standard system the table of
standard extents steps in.  Since an evaluation works boxes out against the system that it checks
them in, every layer of an accepted service has a box (`LayerInput.hasBoxes_of_accepted`).

It also says which box this is.  `Hierarchy.HasNearestBox` is the first box that the layer declares
or, when it declares none, the first one of the nearest ancestor that declares any.  In every system
but the standard one each layer of an accepted service has such a box; in the standard one it may be
the standard extent in its place (`Hierarchy.HasBoxes`).

The check asks at every layer, but the top layer alone decides: in any system but the standard one
it has an explicit box if there are no errors, which it must have declared, and what declares none
below it inherits one.
-/

set_option autoImplicit false

namespace MapLayers

/-- The standard system is in the table of standard extents. -/
theorem isSome_standardExtent_standard : (standardExtent .standard).isSome = true := rfl

namespace Hierarchy

/-- The box of a layer is the first one that it declares, or else the first one that the nearest
ancestor declares that declares any. -/
def HasNearestBox (h : Hierarchy) (c : Crs) (k : Nat) : Prop :=
  (∃ b, (h.attributes k).box? c = some b ∧ h.effectiveBox k c = some ⟨b.rect, .declared⟩) ∨
    (¬ h.Declares c k ∧ ∃ a b, h.Nearest (h.Declares c) k a ∧ (h.attributes a).box? c = some b ∧
      h.effectiveBox k c = some ⟨b.rect, .inherited a⟩)

/-- Every layer has a box in a system, and it is a standard extent in the standard system only. -/
structure HasBoxes (h : Hierarchy) (c : Crs) : Prop where
  /-- Every layer has a box. -/
  effective : ∀ k < h.size, (h.effectiveBox k c).isSome
  /-- In any system but the standard one, the top layer declares a box. -/
  top : c ≠ .standard → h.Declares c Arena.top
  /-- In any such system, the box of a layer is declared by it or by the nearest ancestor that
  declares one. -/
  explicit : c ≠ .standard → ∀ k < h.size, h.HasNearestBox c k
  /-- In the standard system it is the standard extent where nobody declares a box. -/
  standard : c = .standard → ∀ k < h.size, ¬ h.Declares c k →
    (∀ a, h.Above a k → ¬ h.Declares c a) →
      ∃ r, standardExtent .standard = some r ∧ h.effectiveBox k c = some ⟨r, .standard⟩

variable {l : Layer} {primary c : Crs} {s : Settings} {k : Nat}

/-- **A box that is declared on the way to the top is the one in effect.** -/
theorem hasNearestBox_of_declares (hk : k < (ofLayer l primary).size)
    (h : (ofLayer l primary).Declares c k ∨
      ∃ a, (ofLayer l primary).Above a k ∧ (ofLayer l primary).Declares c a) :
    (ofLayer l primary).HasNearestBox c k := by
  by_cases hown : (ofLayer l primary).Declares c k
  · obtain ⟨b, hb⟩ := declares_iff_box?.mp hown
    exact Or.inl ⟨b, hb, effectiveBox_of_box? hk hb⟩
  · have habove := h.resolve_left hown
    obtain ⟨e, he⟩ := Option.isSome_iff_exists.mp (isSome_inheritedBox_iff.mpr habove)
    obtain ⟨a, b, hnearest, hb, rfl⟩ := (inheritedBox_eq_some_iff c e k).mp he
    refine Or.inr ⟨hown, a, b, hnearest, hb, ?_⟩
    rw [effectiveBox_of_not_declares hk hown, he, Option.some_or]

/-- Where nobody declares a box, there is the standard extent or nothing. -/
theorem effectiveBox_of_nobody (hk : k < (ofLayer l primary).size)
    (hown : ¬ (ofLayer l primary).Declares c k)
    (habove : ∀ a, (ofLayer l primary).Above a k → ¬ (ofLayer l primary).Declares c a) :
    (ofLayer l primary).effectiveBox k c = standardBox primary c := by
  have hnone : (ofLayer l primary).inheritedBox k c = none := by
    rw [← Option.not_isSome_iff_eq_none, isSome_inheritedBox_iff]
    rintro ⟨a, ha, hdeclares⟩
    exact habove a ha hdeclares
  rw [effectiveBox_of_not_declares hk hown, hnone, Option.none_or]

/-- Without errors, somebody declares a box in any primary system but the standard one. -/
theorem declares_of_no_errors (h : ((ofLayer l primary).check s).errors = [])
    (hs : s.primary ≠ .standard) (hk : k < (ofLayer l primary).size) :
    (ofLayer l primary).Declares s.primary k ∨
      ∃ a, (ofLayer l primary).Above a k ∧ (ofLayer l primary).Declares s.primary a := by
  by_contra hnobody
  rw [not_or, not_exists] at hnobody
  obtain ⟨f, hf, -⟩ := (missesBox_iff (s := s) hk).mpr
    ⟨hs, hnobody.1, fun a ha hdeclares => hnobody.2 a ⟨ha, hdeclares⟩⟩
  rw [h] at hf
  cases hf

/-- **Without errors, every layer has a box in the primary system.** -/
theorem hasBoxes_of_no_errors (h : ((ofLayer l s.primary).check s).errors = []) :
    (ofLayer l s.primary).HasBoxes s.primary where
  effective k hk := by
    by_cases hdeclared : (ofLayer l s.primary).Declares s.primary k ∨
        ∃ a, (ofLayer l s.primary).Above a k ∧ (ofLayer l s.primary).Declares s.primary a
    · rcases hasNearestBox_of_declares hk hdeclared with ⟨b, -, hb⟩ | ⟨-, a, b, -, -, hb⟩ <;>
        (rw [hb]; rfl)
    · -- only in the standard system can nobody declare a box
      have hs : s.primary = .standard := by
        by_contra hs
        exact hdeclared (declares_of_no_errors h hs hk)
      rw [not_or, not_exists] at hdeclared
      rw [effectiveBox_of_nobody hk hdeclared.1 fun a ha hb => hdeclared.2 a ⟨ha, hb⟩, standardBox,
        if_pos rfl, Option.isSome_map, hs]
      exact isSome_standardExtent_standard
  top hs := by
    have htop : (ofLayer l s.primary).parent Arena.top = none :=
      Arena.parent_eq (Place.mem_all_self (Place.top l))
    have hsize : Arena.top < (ofLayer l s.primary).size := by
      rw [show (ofLayer l s.primary).size = l.count from Arena.size_ofLayer l]
      exact l.count_pos
    refine (declares_of_no_errors h hs hsize).resolve_right ?_
    rintro ⟨a, ha, -⟩
    exact Arena.not_above_of_parent_eq_none htop ha
  explicit hs k hk := hasNearestBox_of_declares hk (declares_of_no_errors h hs hk)
  standard hs k hk hown habove := by
    obtain ⟨r, hr⟩ := Option.isSome_iff_exists.mp isSome_standardExtent_standard
    refine ⟨r, hr, ?_⟩
    rw [effectiveBox_of_nobody hk hown habove, standardBox, if_pos rfl, hs, hr]
    rfl

end Hierarchy

namespace LayerInput

variable {layers : LayerInput} {top : Option Attributes} {s : Settings} {e : Evaluation}

/-- **Every layer of an accepted service has a box in the primary system**, which somebody declares
unless it is the standard extent in the standard system. -/
theorem hasBoxes_of_accepted (h : layers.evaluate top s = .ok e) (ha : e.isAccepted = true) :
    e.hierarchy.HasBoxes s.primary := by
  rw [evaluate] at h
  cases hnest : layers.nest top with
  | error error =>
    rw [hnest] at h
    cases h
  | ok l =>
    rw [hnest] at h
    cases h
    exact Hierarchy.hasBoxes_of_no_errors (List.isEmpty_iff.mp ha)

/-- The topographic service is accepted with a primary system in which only its top layer declares a
box. -/
theorem hasBoxes_serviceEntries :
    ∃ e, (LayerInput.flat Samples.serviceEntries).evaluate (some Samples.serviceTop)
        { primary := ⟨"EPSG:4326"⟩ } = .ok e ∧ e.isAccepted = true ∧
      e.hierarchy.HasBoxes ⟨"EPSG:4326"⟩ := by
  have hok : (LayerInput.flat Samples.serviceEntries).evaluate (some Samples.serviceTop)
      { primary := ⟨"EPSG:4326"⟩ }
      = .ok (.ofLayer { primary := ⟨"EPSG:4326"⟩ } Samples.service) := by
    decide +kernel
  have haccepted :
      (Evaluation.ofLayer { primary := ⟨"EPSG:4326"⟩ } Samples.service).isAccepted = true := by
    decide +kernel
  exact ⟨_, hok, haccepted, hasBoxes_of_accepted hok haccepted⟩

end LayerInput

end MapLayers
