import Mathlib.Data.List.Basic
import Mathlib.Tactic.ByContra
import MapLayers.Proofs.Boxes.Inheritance
import MapLayers.Proofs.Check.ByLayer
import MapLayers.Samples

/-!
# The primary system of the boxes and that of the settings

Boxes are worked out against one primary system, and a report names the primary system of the
settings, which need not be the same.  The check looks at boxes in two ways only: it asks what a
layer inherits, and whether a box is explicit.  Standard extents are neither, and they are all that
the first system decides, so the report is the same whatever that system was
(`Hierarchy.check_any_primary`).

* What is inherited does not depend on the primary system (`Hierarchy.inheritedBox_any_primary`),
  since a standard extent is not passed on.
* A layer has an explicit box when it or an ancestor declares one
  (`Hierarchy.hasExplicitBox_iff_declares`), whatever system the boxes were worked out against.

With this the rule about boxes in the primary system can be said without any table: a box is missed
at a layer just when neither it nor an ancestor declares one for the primary system of the settings,
and that system is not the standard one (`Hierarchy.missesBox_iff`).  A standard extent never makes
up for it.
-/

set_option autoImplicit false

namespace MapLayers

/-- No declared or inherited box for the primary system. -/
def missingBox (s : Settings) : Finding :=
  { Finding.of .boundingBoxRequired with
    field := some .boundingBoxes, detail := some s.primary.id }

/-- The rule about the primary system only asks whether a box is explicit. -/
theorem checkPrimaryBox_eq {s : Settings} {o : Option EffectiveBox} {P : Prop} [Decidable P]
    (h : o.map EffectiveBox.isExplicit = some true ↔ P) :
    checkPrimaryBox s o = if s.primary ≠ .standard ∧ ¬ P then [missingBox s] else [] := by
  have hexplicit : (o.map EffectiveBox.isExplicit).getD false = true ↔ P := by
    rw [← h]
    cases o.map EffectiveBox.isExplicit <;> simp
  rw [checkPrimaryBox, Crs.isStandard]
  by_cases hs : s.primary = .standard
  · rw [if_pos (decide_eq_true hs), if_neg fun hboth => hboth.1 hs]
  · rw [if_neg (by simpa using hs)]
    by_cases hP : P
    · rw [if_pos (hexplicit.mpr hP), if_neg fun hboth => hboth.2 hP]
    · rw [if_neg (mt hexplicit.mp hP), if_pos ⟨hs, hP⟩]
      rfl

theorem checkPrimaryBox_congr_iff {s : Settings} {o o' : Option EffectiveBox}
    (h : o.map EffectiveBox.isExplicit = some true ↔ o'.map EffectiveBox.isExplicit = some true) :
    checkPrimaryBox s o = checkPrimaryBox s o' :=
  (checkPrimaryBox_eq h).trans (checkPrimaryBox_eq Iff.rfl).symm

namespace Hierarchy

variable {l : Layer} {primary p q c : Crs} {s : Settings} {k : Nat}

/-- **What is inherited does not depend on the primary system.** -/
theorem inheritedBox_any_primary (l : Layer) (p q : Crs) :
    (ofLayer l p).inheritedBox = (ofLayer l q).inheritedBox := by
  funext k c
  exact inheritedBox_congr ⟨rfl, rfl, rfl, rfl⟩ fun _ _ => rfl

/-- What is inherited is explicit. -/
theorem explicit_inheritedBox_iff : ((ofLayer l primary).inheritedBox k c).map
    EffectiveBox.isExplicit = some true ↔ ((ofLayer l primary).inheritedBox k c).isSome := by
  cases hi : (ofLayer l primary).inheritedBox k c with
  | none => simp
  | some e =>
    obtain ⟨a, b, -, -, rfl⟩ := (inheritedBox_eq_some_iff c e k).mp hi
    simp [EffectiveBox.isExplicit]

/-- **A layer has an explicit box when it or an ancestor declares one.** -/
theorem hasExplicitBox_iff_declares (hk : k < (ofLayer l primary).size) :
    (ofLayer l primary).HasExplicitBox k c ↔ (ofLayer l primary).Declares c k ∨
      ∃ a, (ofLayer l primary).Above a k ∧ (ofLayer l primary).Declares c a := by
  obtain ⟨q, hq, rfl⟩ := Arena.exists_place hk
  have hattributes : (ofLayer l primary).attributes q.position = q.layer.attributes :=
    Arena.attributes_eq hq
  rw [hasExplicitBox_iff hq, explicit_inheritedBox_iff, isSome_inheritedBox_iff, Declares,
    hattributes]

open Classical in
theorem checkPrimaryBox_effectiveBox (hk : k < (ofLayer l primary).size) :
    checkPrimaryBox s ((ofLayer l primary).effectiveBox k s.primary)
      = if s.primary ≠ .standard ∧ ¬ ((ofLayer l primary).Declares s.primary k ∨
            ∃ a, (ofLayer l primary).Above a k ∧ (ofLayer l primary).Declares s.primary a)
        then [missingBox s] else [] :=
  checkPrimaryBox_eq (hasExplicitBox_iff_declares hk)

/-- **The findings at a layer do not depend on the primary system of the boxes.** -/
theorem layerFindings_any_primary (p q : Crs) (hk : k < (ofLayer l p).size)
    (shared : List (Nat × List String)) (names : Holders) :
    (ofLayer l p).layerFindings s shared names k
      = (ofLayer l q).layerFindings s shared names k := by
  have hp : checkPrimaryBox s ((ofLayer l p).effectiveBox k s.primary) = _ :=
    checkPrimaryBox_effectiveBox hk
  have hq : checkPrimaryBox s ((ofLayer l q).effectiveBox k s.primary) = _ :=
    checkPrimaryBox_effectiveBox hk
  rw [layerFindings, layerFindings, hp.trans hq.symm, inheritedBox_any_primary l p q]
  rfl

theorem findings_any_primary (l : Layer) (p q : Crs) (s : Settings) :
    (ofLayer l p).findings s = (ofLayer l q).findings s := by
  rw [findings_eq, findings_eq]
  congr 1
  exact List.flatMap_congr fun k hk => layerFindings_any_primary p q (mem_all_iff.mp hk) _ _

/-! ## The report

From the findings of a tree to its report, and to what the report says about missing boxes in terms
of declared ones. -/

/-- A box is missed at a layer when neither it nor an ancestor declares one for the primary system
of the settings. -/
theorem missesBox_iff (hk : k < (ofLayer l primary).size) :
    (∃ f ∈ ((ofLayer l primary).check s).errors,
        f.layer = some k ∧ f.rule = .boundingBoxRequired) ↔
      s.primary ≠ .standard ∧ ¬ (ofLayer l primary).Declares s.primary k ∧
        ∀ a, (ofLayer l primary).Above a k → ¬ (ofLayer l primary).Declares s.primary a := by
  classical
  have hcheck := checkPrimaryBox_effectiveBox (s := s) hk
  simp only [not_or, not_exists, not_and] at hcheck
  refine ⟨?_, fun hmissing => ?_⟩
  · rintro ⟨f, hf, hlayer, hrule⟩
    obtain ⟨-, g, hg, rfl⟩ := (mem_findings_iff hlayer).mp (mem_errors_check_iff.mp hf).1
    have hgrule : g.rule = .boundingBoxRequired := hrule
    rw [hrule] at hg
    rcases List.mem_append.mp hg with hdeclared | hprimary
    · rcases rule_of_mem_checkDeclaredBoxes hdeclared with h | h <;>
        exact absurd (hgrule.symm.trans h) (by simp)
    · by_contra hnot
      rw [hcheck, if_neg hnot] at hprimary
      cases hprimary
  · rw [if_pos hmissing] at hcheck
    refine ⟨(missingBox s).located k ((ofLayer l primary).attributes k).name,
      mem_errors_check_iff.mpr ⟨(mem_findings_iff rfl).mpr ⟨hk, missingBox s, ?_, rfl⟩, rfl⟩,
      rfl, rfl⟩
    exact List.mem_append_right _ (by rw [hcheck]; exact List.mem_singleton_self _)

/-- **The report does not depend on the system that boxes were worked out against.**  In particular
a box is missed just where none is declared, since a standard extent never counts. -/
theorem check_any_primary (l : Layer) (s : Settings) :
    (∀ p q : Crs, (ofLayer l p).check s = (ofLayer l q).check s) ∧
      ∀ (p : Crs) (k : Nat), k < (ofLayer l p).size →
        ((∃ f ∈ ((ofLayer l p).check s).errors,
            f.layer = some k ∧ f.rule = .boundingBoxRequired) ↔
          s.primary ≠ .standard ∧ ¬ (ofLayer l p).Declares s.primary k ∧
            ∀ a, (ofLayer l p).Above a k → ¬ (ofLayer l p).Declares s.primary a) :=
  ⟨fun p q => congrArg Report.ofFindings (findings_any_primary l p q s),
    fun _ _ hk => missesBox_iff hk⟩

/-- The top layer of the topographic service has the standard extent in a system that it does not
declare a box for, and misses a box all the same. -/
theorem missesBox_service :
    ((ofLayer Samples.service ⟨"EPSG:3857"⟩).effectiveBox 0 ⟨"EPSG:3857"⟩).isSome ∧
      ∃ f ∈ ((ofLayer Samples.service ⟨"EPSG:3857"⟩).check { primary := ⟨"EPSG:3857"⟩ }).errors,
        f.layer = some 0 ∧ f.rule = .boundingBoxRequired := by
  refine ⟨by decide +kernel, ?_⟩
  refine ((check_any_primary Samples.service { primary := ⟨"EPSG:3857"⟩ }).2 ⟨"EPSG:3857"⟩ 0
    (by decide)).mpr ⟨by decide, ?_, fun a habove => ?_⟩
  · have hboxes : ∀ b ∈ ((ofLayer Samples.service ⟨"EPSG:3857"⟩).attributes 0).boxes,
        b.crs ≠ ⟨"EPSG:3857"⟩ := by decide +kernel
    rintro ⟨b, hb, hcrs⟩
    exact hboxes b hb hcrs
  · exact absurd habove (Arena.not_above_of_parent_eq_none (by decide))

end Hierarchy

end MapLayers
