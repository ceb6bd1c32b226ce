import MapLayers.Check

/-!
# Where a finding comes from

The checks of a layer are run one after the other, each for rules of its own.  A rule belongs to a
*group* (`Rule.group`), and all findings of one check are of one group (`OfGroup`), so the rule of a
finding tells the check that made it.  The layer of a finding tells at which step of the walk that
was (`Hierarchy.exists_of_mem_findings`).

With both, a finding in a report can be traced to the one place where it was made, and the findings
about a rule can be picked out of a report without looking at the other checks.  There is a lemma
for each check that says which group it is about.  They are all that the modules which pick findings
out have to know about the checks that they are not concerned with.

One group has two checks.  The boxes that a layer declares are gone through first, and that it has
none in the primary system is found by a check of its own after that; these are told apart by the
rule (`rule_of_mem_checkPrimaryBox`).
-/

set_option autoImplicit false

namespace MapLayers

/-- What a rule is about. -/
inductive RuleGroup where
  | names
  | visibility
  | styles
  | source
  | scales
  | boxes
  | sharedStyles
  | hierarchy
deriving DecidableEq, Repr

/-- The group that a rule belongs to. -/
def Rule.group : Rule → RuleGroup
  | .duplicateName | .missingName => .names
  | .requiredWhenVisible | .unusedWhenHidden | .groupHidden => .visibility
  | .duplicateStyleName | .stylesUnsupported | .visualizationRequired
  | .visualizationForbidden => .styles
  | .dataOnGroup | .dataRequired | .rasterUnsupported | .duplicateColumn => .source
  | .scaleRange => .scales
  | .duplicateBoundingBox | .boundingBoxRequired | .redundantBoundingBox => .boxes
  | .styleNameCollision => .sharedStyles
  | .noVisibleLayer => .hierarchy

/-- All findings are about rules of one group. -/
def OfGroup (g : RuleGroup) (fs : List Finding) : Prop := ∀ f ∈ fs, f.rule.group = g

section

variable {g : RuleGroup} {f : Finding} {fs gs : List Finding}

@[simp] theorem ofGroup_nil : OfGroup g [] := fun _ h => absurd h (by simp)

@[simp] theorem ofGroup_cons : OfGroup g (f :: fs) ↔ f.rule.group = g ∧ OfGroup g fs :=
  List.forall_mem_cons

@[simp] theorem ofGroup_append : OfGroup g (fs ++ gs) ↔ OfGroup g fs ∧ OfGroup g gs :=
  List.forall_mem_append

theorem ofGroup_map {α : Type} {xs : List α} {f : α → Finding} (h : ∀ x, (f x).rule.group = g) :
    OfGroup g (xs.map f) :=
  List.forall_mem_map.mpr fun x _ => h x

/-- Nothing of another group is among them. -/
theorem OfGroup.not_mem (h : OfGroup g fs) (hf : f.rule.group ≠ g) : f ∉ fs :=
  fun hmem => hf (h f hmem)

end

/-- The findings about a rule are among those about its group. -/
theorem filter_rule_eq (r : Rule) (fs : List Finding) : fs.filter (·.rule == r)
    = (fs.filter (·.rule.group == r.group)).filter (·.rule == r) := by
  rw [List.filter_filter]
  refine List.filter_congr fun f _ => ?_
  by_cases h : f.rule = r
  · rw [h, beq_self_eq_true, beq_self_eq_true]
    rfl
  · rw [beq_false_of_ne h, Bool.false_and]

/-! ## The checks of a layer

One lemma for each check.  In the definitions of the checks nothing but the rules of the findings is
looked at. -/

variable {a : Attributes} {role : Role} {settings : Settings}

theorem ofGroup_checkName {names : Holders} : OfGroup .names (checkName names a role) := by
  rw [checkName]
  split
  · split
    · exact ofGroup_nil
    · simp [Finding.of, Rule.group]
  · split
    · exact ofGroup_nil
    · simp [Finding.of, Rule.group]

theorem ofGroup_checkVisibility : OfGroup .visibility (checkVisibility a role) := by
  rw [checkVisibility]
  split
  · rw [checkHidden]
    refine ofGroup_append.mpr ⟨ofGroup_append.mpr ⟨?_, ofGroup_map fun _ => rfl⟩, ?_⟩
    · split
      · exact ofGroup_nil
      · simp [Finding.of, Rule.group]
    · intro f hf
      obtain ⟨s, -, hs⟩ := List.mem_flatMap.mp hf
      obtain ⟨_, -, rfl⟩ := List.mem_map.mp hs
      rfl
  · exact ofGroup_append.mpr ⟨ofGroup_map fun _ => rfl, ofGroup_map fun _ => rfl⟩

theorem group_visualizationRule {static : Bool} {s : Style} {rule : Rule}
    (h : visualizationRule static role s = some rule) : rule.group = .styles := by
  rw [visualizationRule] at h
  split at h <;> split at h <;> first | (cases h; rfl) | exact absurd h (by simp)

theorem ofGroup_checkStyles : OfGroup .styles (checkStyles settings a role) := by
  rw [checkStyles]
  refine ofGroup_append.mpr ⟨ofGroup_map fun _ => rfl, ?_⟩
  split
  · intro f hf
    obtain ⟨s, -, hs⟩ := List.mem_filterMap.mp hf
    obtain ⟨rule, hrule, rfl⟩ := Option.map_eq_some_iff.mp hs
    exact group_visualizationRule hrule
  · split
    · exact ofGroup_nil
    · simp [Finding.of, Rule.group]

theorem ofGroup_checkSource : OfGroup .source (checkSource settings a role) := by
  rw [checkSource]
  split
  · split
    · simp [Finding.of, Rule.group]
    · exact ofGroup_nil
  · refine ofGroup_append.mpr ⟨ofGroup_append.mpr ⟨?_, ?_⟩, ofGroup_map fun _ => rfl⟩
    · split
      · exact ofGroup_nil
      · simp [Finding.of, Rule.group]
    · split
      · simp [Finding.of, Rule.group]
      · exact ofGroup_nil

theorem ofGroup_checkScales : OfGroup .scales (checkScales a) := by
  rw [checkScales]
  split
  · split
    · simp [Finding.of, Rule.group]
    · exact ofGroup_nil
  · exact ofGroup_nil

theorem ofGroup_checkSharedStyles {parent : Option Nat} {shared : List String} :
    OfGroup .sharedStyles (checkSharedStyles a parent shared) := by
  rw [checkSharedStyles]
  split
  · exact ofGroup_map fun _ => rfl
  · exact ofGroup_nil

/-- The one rule about boxes that is not about a declared one. -/
theorem rule_of_mem_checkPrimaryBox {effective : Option EffectiveBox} {f : Finding}
    (h : f ∈ checkPrimaryBox settings effective) : f.rule = .boundingBoxRequired := by
  rw [checkPrimaryBox] at h
  split at h
  · cases h
  · split at h
    · cases h
    · rw [List.mem_singleton] at h
      rw [h]
      rfl

/-! ## The walk

From a finding of a whole walk back to the layer and the check that made it, and the other way
round. -/

namespace Hierarchy

variable {h : Hierarchy} {shared : List (Nat × List String)} {names : Holders} {f : Finding}
  {k : Nat}

/-- A finding of the walk is made at one of the layers that it visits. -/
theorem exists_of_mem_walkFindings : ∀ {ks : List Nat} {names : Holders},
    f ∈ h.walkFindings settings shared names ks →
      ∃ k ∈ ks, ∃ names, f ∈ h.layerFindings settings shared names k
  | [], _, hf => absurd hf (by simp [walkFindings])
  | k :: ks, names, hf => by
    rw [walkFindings, List.mem_append] at hf
    rcases hf with hf | hf
    · exact ⟨k, List.mem_cons_self, names, hf⟩
    · obtain ⟨j, hj, hmem⟩ := exists_of_mem_walkFindings hf
      exact ⟨j, List.mem_cons_of_mem k hj, hmem⟩

/-- What is found at a layer, whatever names came before it, is found by a walk that visits it. -/
theorem mem_walkFindings (hf : ∀ names, f ∈ h.layerFindings settings shared names k) :
    ∀ {ks : List Nat} {names : Holders}, k ∈ ks → f ∈ h.walkFindings settings shared names ks
  | j :: ks, names, hk => by
    rw [walkFindings, List.mem_append]
    rcases List.mem_cons.mp hk with rfl | hk
    · exact Or.inl (hf names)
    · exact Or.inr (mem_walkFindings hf hk)

theorem layer_of_mem_layerFindings (hf : f ∈ h.layerFindings settings shared names k) :
    f.layer = some k := by
  obtain ⟨g, -, rfl⟩ := List.mem_map.mp hf
  rfl

/-- A finding about a declared box is made by the check of the declared boxes. -/
theorem mem_layerFindings_iff_of_declaredBox
    (hrule : f.rule = .duplicateBoundingBox ∨ f.rule = .redundantBoundingBox) :
    f ∈ h.layerFindings settings shared names k ↔
      ∃ g ∈ checkDeclaredBoxes (h.inheritedBox k) [] (h.attributes k).boxes,
        g.located k (h.attributes k).name = f := by
  rw [layerFindings, List.mem_map]
  refine exists_congr fun g => and_congr_left ?_
  rintro rfl
  have hgroup : g.rule.group = .boxes := by
    rcases hrule with hr | hr <;> (rw [show g.rule = _ from hr]; rfl)
  have hother : ∀ {i : RuleGroup} {fs : List Finding}, OfGroup i fs → .boxes ≠ i → g ∉ fs :=
    fun hfs hi => hfs.not_mem (by rwa [hgroup])
  have hprimary : g ∉ checkPrimaryBox settings (h.effectiveBox k settings.primary) := by
    intro hg
    rcases hrule with hr | hr <;>
      exact absurd ((rule_of_mem_checkPrimaryBox hg).symm.trans hr) (by simp)
  simp [hother ofGroup_checkName, hother ofGroup_checkVisibility, hother ofGroup_checkStyles,
    hother ofGroup_checkSource, hother ofGroup_checkScales, hother ofGroup_checkSharedStyles,
    hprimary]

/-- A finding about a layer is made at that layer. -/
theorem exists_of_mem_findings (hlayer : f.layer = some k) (hf : f ∈ h.findings settings) :
    ∃ names, f ∈ h.layerFindings settings (h.forbiddenShared settings) names k := by
  rw [findings, List.mem_append] at hf
  rcases hf with hf | hf
  · obtain ⟨j, -, names, hmem⟩ := exists_of_mem_walkFindings hf
    have hj := layer_of_mem_layerFindings hmem
    rw [hlayer] at hj
    cases hj
    exact ⟨names, hmem⟩
  · rw [checkAnyVisible] at hf
    split at hf
    · cases hf
    · rw [List.mem_singleton] at hf
      rw [hf] at hlayer
      cases hlayer

end Hierarchy

end MapLayers
