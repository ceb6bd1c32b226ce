import MapLayers.Proofs.Check.DeclaredBoxes
import MapLayers.Proofs.Check.Groups
import MapLayers.Proofs.Layout.Walking

/-!
# Findings, layer by layer

The walk of the check hands a table of names from layer to layer.  At each layer that table is what
the layers before it make it, whatever was found there (`Hierarchy.holdersBefore`), so the findings
of a tree can be written down layer by layer, without a walk (`Hierarchy.findings_eq`).  Within a
layer they come group by group (`Hierarchy.layerFindings_eq_groups`), and those of one group can be
picked out (`Hierarchy.filter_group_findings`).

The table has the first layer of each name (`Hierarchy.lookup_holdersBefore`), which is not how it
is made: the walk enters every layer that has a name, and a name that has a holder already keeps it
(`Holders.lookup_meet`).

* `Hierarchy.groupFindings` is what violates a rule of a group at one layer, with everything that
  the check of the group looks at filled in.
* `Hierarchy.mem_findings_iff` says that a finding about a layer is made by the check for the group
  of its rule, at that layer.  Most results about single rules start from there.
* `Hierarchy.mem_all_check_iff` takes this over to reports, from which nothing is left out.
-/

set_option autoImplicit false

namespace MapLayers

/-! ## First holders -/

namespace Hierarchy

variable {h : Hierarchy} {s : Settings} {shared : List (Nat × List String)} {names : Holders}
  {k : Nat}

/-- The first holders of names among the layers before a position. -/
def holdersBefore (h : Hierarchy) (k : Nat) : Holders :=
  (List.range k).foldl (fun names j => names.meet j (h.attributes j)) .empty

theorem holdersBefore_succ (h : Hierarchy) (k : Nat) :
    h.holdersBefore (k + 1) = (h.holdersBefore k).meet k (h.attributes k) := by
  rw [holdersBefore, List.range_succ, List.foldl_append]
  rfl

/-- **The table has the first layer of each name.** -/
theorem lookup_holdersBefore (h : Hierarchy) (k : Nat) (n : String) :
    (h.holdersBefore k).lookup n
      = (List.range k).find? fun j => (h.attributes j).properName == some n := by
  induction k with
  | zero => rfl
  | succ k ih =>
    rw [holdersBefore_succ, Holders.lookup_meet, ih, List.range_succ, List.find?_append]
    by_cases hk : (h.attributes k).properName = some n <;> simp [hk]

/-! ## Without the walk

The walk starts at some position with the names of the layers before it.  Said in this way, it can
be followed layer by layer, and for a walk from the start there are no names before it. -/

/-- Walking on from some position, with the names before it. -/
theorem walkFindings_range' (h : Hierarchy) (s : Settings) (shared : List (Nat × List String)) :
    ∀ m k : Nat, h.walkFindings s shared (h.holdersBefore k) (List.range' k m)
      = (List.range' k m).flatMap fun j => h.layerFindings s shared (h.holdersBefore j) j
  | 0, _ => rfl
  | m + 1, k => by
    rw [List.range'_succ, walkFindings, List.flatMap_cons, ← holdersBefore_succ,
      walkFindings_range' h s shared m (k + 1)]

/-- **The findings of a tree are those of its layers, one after the other**, and what is said about
the tree as a whole. -/
theorem findings_eq (l : Layer) (primary : Crs) (s : Settings) : (ofLayer l primary).findings s
    = ((ofLayer l primary).all.flatMap fun k => (ofLayer l primary).layerFindings s
          ((ofLayer l primary).forbiddenShared s) ((ofLayer l primary).holdersBefore k) k)
        ++ (ofLayer l primary).checkAnyVisible := by
  have hall : (ofLayer l primary).all = List.range' 0 l.count :=
    (Arena.all_eq_range l).trans List.range_eq_range'
  rw [findings, hall]
  congr 1
  exact walkFindings_range' (ofLayer l primary) s _ l.count 0

theorem all_eq_range (l : Layer) (primary : Crs) :
    (ofLayer l primary).all = List.range (ofLayer l primary).size := Arena.all_eq_range_size l

theorem mem_all_iff {l : Layer} {primary : Crs} :
    k ∈ (ofLayer l primary).all ↔ k < (ofLayer l primary).size := Arena.mem_all_iff

/-! ## Group by group

`RuleGroup.ofLayer` lists the groups in the order in which a layer is checked.  The one that is not
among them is about the hierarchy as a whole. -/

end Hierarchy

/-- The groups of the rules about one layer, in the order in which they are checked. -/
def RuleGroup.ofLayer : List RuleGroup :=
  [.names, .visibility, .styles, .source, .scales, .boxes, .sharedStyles]

namespace Hierarchy

variable {h : Hierarchy} {s : Settings} {shared : List (Nat × List String)} {names : Holders}
  {k : Nat} {g : RuleGroup}

/-- What violates a rule of a group at one layer, without its location. -/
def groupFindings (h : Hierarchy) (s : Settings) (shared : List (Nat × List String))
    (names : Holders) (k : Nat) : RuleGroup → List Finding
  | .names => checkName names (h.attributes k) (h.role k)
  | .visibility => checkVisibility (h.attributes k) (h.role k)
  | .styles => checkStyles s (h.attributes k) (h.role k)
  | .source => checkSource s (h.attributes k) (h.role k)
  | .scales => checkScales (h.attributes k)
  | .boxes => checkDeclaredBoxes (h.inheritedBox k) [] (h.attributes k).boxes
      ++ checkPrimaryBox s (h.effectiveBox k s.primary)
  | .sharedStyles => checkSharedStyles (h.attributes k) (h.parent k) ((shared.lookup k).getD [])
  | .hierarchy => []

theorem ofGroup_checkDeclaredBoxes {inherited : Crs → Option EffectiveBox} {seen : List Crs}
    {bs : List DeclaredBox} : OfGroup .boxes (checkDeclaredBoxes inherited seen bs) := by
  intro f hf
  rcases rule_of_mem_checkDeclaredBoxes hf with h | h <;> (rw [h]; rfl)

/-- **Each group has its findings.** -/
theorem ofGroup_groupFindings : ∀ g, OfGroup g (h.groupFindings s shared names k g)
  | .names => ofGroup_checkName
  | .visibility => ofGroup_checkVisibility
  | .styles => ofGroup_checkStyles
  | .source => ofGroup_checkSource
  | .scales => ofGroup_checkScales
  | .boxes => ofGroup_append.mpr ⟨ofGroup_checkDeclaredBoxes, fun f hf => by
      rw [rule_of_mem_checkPrimaryBox hf]
      rfl⟩
  | .sharedStyles => ofGroup_checkSharedStyles
  | .hierarchy => ofGroup_nil

theorem layerFindings_eq_groups : h.layerFindings s shared names k
    = (RuleGroup.ofLayer.flatMap (h.groupFindings s shared names k)).map
        (·.located k (h.attributes k).name) := by
  rw [layerFindings]
  simp only [RuleGroup.ofLayer, List.flatMap_cons, List.flatMap_nil, groupFindings,
    List.append_assoc, List.append_nil]

theorem filter_groupFindings (g i : RuleGroup) :
    (h.groupFindings s shared names k i).filter (·.rule.group == g)
      = if i = g then h.groupFindings s shared names k g else [] := by
  split
  · rename_i heq
    subst heq
    exact List.filter_eq_self.mpr fun f hf => beq_iff_eq.mpr (ofGroup_groupFindings i f hf)
  · rename_i hne
    refine List.filter_eq_nil_iff.mpr fun f hf heq => hne ?_
    rw [← beq_iff_eq.mp heq]
    exact (ofGroup_groupFindings i f hf).symm

/-- **The findings of a group at a layer** are those of its check. -/
theorem filter_group_layerFindings (g : RuleGroup) :
    (h.layerFindings s shared names k).filter (·.rule.group == g)
      = (h.groupFindings s shared names k g).map (·.located k (h.attributes k).name) := by
  have hpick : (RuleGroup.ofLayer.flatMap (h.groupFindings s shared names k)).filter
      (·.rule.group == g) = h.groupFindings s shared names k g := by
    rw [List.filter_flatMap]
    simp only [filter_groupFindings, RuleGroup.ofLayer, List.flatMap_cons, List.flatMap_nil]
    cases g <;> simp [groupFindings]
  rw [layerFindings_eq_groups, List.filter_map]
  exact congrArg _ hpick

/-- **The findings of a group in a tree** are those of its check, layer by layer. -/
theorem filter_group_findings (l : Layer) (primary : Crs) (s : Settings) (hg : g ≠ .hierarchy) :
    ((ofLayer l primary).findings s).filter (·.rule.group == g)
      = (ofLayer l primary).all.flatMap fun k => ((ofLayer l primary).groupFindings s
          ((ofLayer l primary).forbiddenShared s) ((ofLayer l primary).holdersBefore k) k g).map
            (·.located k ((ofLayer l primary).attributes k).name) := by
  have hwhole : (ofLayer l primary).checkAnyVisible.filter (·.rule.group == g) = [] := by
    rw [checkAnyVisible]
    split
    · rfl
    · exact List.filter_eq_nil_iff.mpr fun f hf heq =>
        hg ((beq_iff_eq.mp heq).symm.trans (congrArg _ (congrArg _ (List.mem_singleton.mp hf))))
  rw [findings_eq, List.filter_append, hwhole, List.append_nil, List.filter_flatMap]
  simp only [filter_group_layerFindings]

/-- **A finding about a layer is made by the check for the group of its rule**, at that layer. -/
theorem mem_findings_iff {l : Layer} {primary : Crs} {f : Finding} (hlayer : f.layer = some k) :
    f ∈ (ofLayer l primary).findings s ↔ k < (ofLayer l primary).size ∧
      ∃ g ∈ (ofLayer l primary).groupFindings s ((ofLayer l primary).forbiddenShared s)
        ((ofLayer l primary).holdersBefore k) k f.rule.group,
          g.located k ((ofLayer l primary).attributes k).name = f := by
  have hpick (j : Nat) : f ∈ (ofLayer l primary).layerFindings s
        ((ofLayer l primary).forbiddenShared s) ((ofLayer l primary).holdersBefore j) j ↔
      ∃ g ∈ (ofLayer l primary).groupFindings s ((ofLayer l primary).forbiddenShared s)
        ((ofLayer l primary).holdersBefore j) j f.rule.group,
          g.located j ((ofLayer l primary).attributes j).name = f := by
    rw [← List.mem_map, ← filter_group_layerFindings, List.mem_filter]
    exact (and_iff_left (beq_self_eq_true _)).symm
  have hwhole : f ∉ (ofLayer l primary).checkAnyVisible := by
    rw [checkAnyVisible]
    split
    · exact List.not_mem_nil
    · intro hf
      rw [List.mem_singleton.mp hf] at hlayer
      cases hlayer
  rw [findings_eq, List.mem_append, or_iff_left hwhole, List.mem_flatMap]
  refine ⟨?_, ?_⟩
  · rintro ⟨j, hj, hf⟩
    obtain rfl : j = k := Option.some.inj ((layer_of_mem_layerFindings hf).symm.trans hlayer)
    exact ⟨mem_all_iff.mp hj, (hpick j).mp hf⟩
  · rintro ⟨hk, hf⟩
    exact ⟨k, mem_all_iff.mpr hk, (hpick k).mpr hf⟩

/-! ## The report -/

theorem mem_errors_check_iff {f : Finding} :
    f ∈ (h.check s).errors ↔ f ∈ h.findings s ∧ f.severity = .error := by
  rw [check, Report.ofFindings, List.mem_filter, beq_iff_eq]

/-- Nothing is left out of a report. -/
theorem mem_all_check_iff {f : Finding} : f ∈ (h.check s).all ↔ f ∈ h.findings s := by
  rw [Report.all, check, Report.ofFindings, List.mem_append, List.mem_filter, List.mem_filter,
    ← and_or_left, and_iff_left]
  cases f.severity <;> simp

end Hierarchy

end MapLayers
