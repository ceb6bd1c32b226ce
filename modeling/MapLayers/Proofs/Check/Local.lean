import Mathlib.Data.List.Basic
import MapLayers.Proofs.Boxes.Inheritance
import MapLayers.Proofs.Check.Collisions
import MapLayers.Samples

/-!
# Findings are local

The check walks through all layers with tables that are filled along the way or beforehand, but what
is found at a layer depends on little: on the layer itself, on the names before it, on the style
names of its parent, and on the boxes that its ancestors declare.  Two trees of one shape that agree
on these have the same findings at that layer (`Hierarchy.ofLayer_check_eq`), whatever else they say
about other layers.

Trees of one shape are compared by way of the tree in which nothing is said about any layer
(`Layer.shape`), which has the same links as either (`Arena.sameLinks_of_shape_eq`).  Then each
reader of the hierarchy that the check of a layer uses has a lemma of its own, with just the
agreement that it needs: `Hierarchy.holdersBefore_congr` for names,
`Hierarchy.sharedWithParent_congr` for styles, and `Hierarchy.inheritedBox_congr` for boxes.
`Hierarchy.AgreeAt` has what these come to.

The example that follows the theorem has two trees that differ almost everywhere else, and so in
most of their findings.
-/

set_option autoImplicit false

namespace MapLayers

/-! ## Trees of one shape -/

/-- The tree with nothing said about its layers. -/
def Layer.shape (l : Layer) : Layer := l.relabel (fun _ _ => {}) 0

/-- **Trees of one shape have the same links.** -/
theorem Arena.sameLinks_of_shape_eq {l l' : Layer} (h : l'.shape = l.shape) :
    (ofLayer l).SameLinks (ofLayer l') := by
  have hl : (ofLayer l).SameLinks (ofLayer l.shape) := sameLinks_relabel _ l
  have hl' : (ofLayer l').SameLinks (ofLayer l.shape) := h ▸ sameLinks_relabel _ l'
  exact ⟨hl'.size.symm.trans hl.size, hl'.parent.symm.trans hl.parent,
    hl'.firstChild.symm.trans hl.firstChild, hl'.nextSibling.symm.trans hl.nextSibling⟩

namespace Hierarchy

/-- Two hierarchies agree on what the check of a layer looks at. -/
structure AgreeAt (h h' : Hierarchy) (k : Nat) : Prop where
  /-- They say the same about the layer itself. -/
  attributes : h'.attributes k = h.attributes k
  /-- The layers before it have the same names. -/
  names : ∀ j < k, h'.name j = h.name j
  /-- Its parent has styles of the same names. -/
  parentStyles : ∀ p, h.parent k = some p →
    (h'.attributes p).styles.map Style.name = (h.attributes p).styles.map Style.name
  /-- Its ancestors declare the same boxes. -/
  boxes : ∀ a, h.Above a k → (h'.attributes a).boxes = (h.attributes a).boxes

variable {l l' : Layer} {primary : Crs} {s : Settings} {k : Nat}

/-! ## Readers of the hierarchy

What the check of a layer is given apart from its attributes, reader by reader: each depends on a
part of the tree only, and the hypotheses say which. -/

/-- The first holders of names follow from the names. -/
theorem holdersBefore_congr {h h' : Hierarchy} (hnames : ∀ j < k, h'.name j = h.name j) :
    h'.holdersBefore k = h.holdersBefore k := by
  induction k with
  | zero => rfl
  | succ k ih =>
    have hproper : (h'.attributes k).properName = (h.attributes k).properName :=
      congrArg (Option.filter fun n : String => !n.isEmpty) (hnames k (Nat.lt_succ_self k))
    rw [holdersBefore_succ, holdersBefore_succ, ih fun j hj => hnames j (Nat.lt_succ_of_lt hj),
      Holders.meet, Holders.meet, hproper]

section

variable (hlinks : (ofLayer l primary).SameLinks (ofLayer l' primary).toArena)

include hlinks

/-- What is shared with the parent follows from the style names of the layer and its parent. -/
theorem sharedWithParent_congr
    (hown : ((ofLayer l' primary).attributes k).styles.map Style.name
      = ((ofLayer l primary).attributes k).styles.map Style.name)
    (hstyles : ∀ p, (ofLayer l primary).parent k = some p →
      ((ofLayer l' primary).attributes p).styles.map Style.name
        = ((ofLayer l primary).attributes p).styles.map Style.name) :
    (ofLayer l' primary).sharedWithParent k = (ofLayer l primary).sharedWithParent k := by
  rw [Arena.sharedWithParent, Arena.sharedWithParent, hlinks.parent]
  cases hparent : (ofLayer l primary).parent k with
  | none => rfl
  | some p =>
    rw [Option.elim_some, Option.elim_some, Arena.sharedStyles_eq_filter,
      Arena.sharedStyles_eq_filter, hown, hstyles p hparent]

/-- **What is found at a layer follows from what the check of it looks at.** -/
theorem layerFindings_congr (hk : k < (ofLayer l primary).size)
    (hagree : (ofLayer l primary).AgreeAt (ofLayer l' primary) k) :
    (ofLayer l' primary).layerFindings s ((ofLayer l' primary).forbiddenShared s)
        ((ofLayer l' primary).holdersBefore k) k
      = (ofLayer l primary).layerFindings s ((ofLayer l primary).forbiddenShared s)
          ((ofLayer l primary).holdersBefore k) k := by
  have hk' : k < (ofLayer l' primary).size := by rwa [hlinks.size]
  have hinherited : (ofLayer l' primary).inheritedBox k = (ofLayer l primary).inheritedBox k :=
    funext fun c => inheritedBox_congr hlinks fun a ha => by
      rw [Attributes.box?, Attributes.box?, hagree.boxes a ha]
  have hshared : (((ofLayer l' primary).forbiddenShared s).lookup k).getD []
      = (((ofLayer l primary).forbiddenShared s).lookup k).getD [] := by
    rw [getD_lookup_forbiddenShared hk', getD_lookup_forbiddenShared hk,
      sharedWithParent_congr hlinks (by rw [hagree.attributes]) hagree.parentStyles]
  rw [layerFindings, layerFindings, hshared, hinherited, effectiveBox_of_lt hk',
    effectiveBox_of_lt hk, hinherited, hagree.attributes, holdersBefore_congr hagree.names,
    hlinks.role_eq, hlinks.parent]

end

/-! ## The findings about one layer

Picked out of a report, the findings about a layer are those that are made there, the errors first.
So they are determined by what the check of that layer looks at. -/

theorem flatMap_ite_eq {α : Type} (f : Nat → List α) (k m : Nat) :
    ((List.range m).flatMap fun j => if j = k then f j else []) = if k < m then f k else [] := by
  induction m with
  | zero => rfl
  | succ m ih =>
    rw [List.range_succ, List.flatMap_append, ih, List.flatMap_singleton]
    rcases Nat.lt_trichotomy k m with h | rfl | h
    · rw [if_pos h, if_neg (Nat.ne_of_gt h), if_pos (Nat.lt_succ_of_lt h), List.append_nil]
    · rw [if_neg (Nat.lt_irrefl k), if_pos rfl, if_pos (Nat.lt_succ_self k), List.nil_append]
    · rw [if_neg (Nat.lt_asymm h), if_neg (Nat.ne_of_lt h), if_neg (Nat.not_lt.mpr h)]
      rfl

/-- The findings of a tree about one layer are those that are made there. -/
theorem filter_layer_findings (l : Layer) (primary : Crs) (s : Settings) (k : Nat) :
    ((ofLayer l primary).findings s).filter (·.layer == some k)
      = if k < (ofLayer l primary).size then
          (ofLayer l primary).layerFindings s ((ofLayer l primary).forbiddenShared s)
            ((ofLayer l primary).holdersBefore k) k
        else [] := by
  have hwhole : (ofLayer l primary).checkAnyVisible.filter (·.layer == some k) = [] := by
    rw [checkAnyVisible]
    split <;> rfl
  have hlayer (j : Nat) : ((ofLayer l primary).layerFindings s
        ((ofLayer l primary).forbiddenShared s) ((ofLayer l primary).holdersBefore j) j).filter
        (·.layer == some k)
      = if j = k then (ofLayer l primary).layerFindings s ((ofLayer l primary).forbiddenShared s)
          ((ofLayer l primary).holdersBefore j) j else [] := by
    split
    · rename_i h
      refine List.filter_eq_self.mpr fun f hf => ?_
      rw [layer_of_mem_layerFindings hf, h]
      exact beq_self_eq_true _
    · rename_i h
      refine List.filter_eq_nil_iff.mpr fun f hf => ?_
      rw [layer_of_mem_layerFindings hf]
      simpa using h
  rw [findings_eq, List.filter_append, hwhole, List.append_nil, List.filter_flatMap,
    all_eq_range]
  simp only [hlayer, flatMap_ite_eq]

/-- The findings about a layer and a rule are made by the check for the group of the rule. -/
theorem filter_rule_layer_findings (l : Layer) (primary : Crs) (s : Settings) (rule : Rule)
    (k : Nat) :
    (((ofLayer l primary).findings s).filter (·.rule == rule)).filter (·.layer == some k)
      = if k < (ofLayer l primary).size then
          (((ofLayer l primary).groupFindings s ((ofLayer l primary).forbiddenShared s)
            ((ofLayer l primary).holdersBefore k) k rule.group).filter (·.rule == rule)).map
              (·.located k ((ofLayer l primary).attributes k).name)
        else [] := by
  rw [List.filter_comm, filter_layer_findings]
  split
  · rw [filter_rule_eq, filter_group_layerFindings, List.filter_map]
    rfl
  · rfl

/-- In a report, too, the errors about a layer come first. -/
theorem ofLayer_check (h : Hierarchy) (s : Settings) (k : Nat) : (h.check s).ofLayer k
    = (Report.ofFindings ((h.findings s).filter (·.layer == some k))).all := by
  simp only [Report.ofLayer, Report.all, check, Report.ofFindings, List.filter_append,
    List.filter_filter, Bool.and_comm]

/-- **Findings are local.**  Two trees of one shape that agree on a layer, on the names before it,
on the style names of its parent and on the boxes that its ancestors declare have the same findings
about that layer. -/
theorem ofLayer_check_eq (hshape : l'.shape = l.shape)
    (hagree : (ofLayer l primary).AgreeAt (ofLayer l' primary) k) :
    ((ofLayer l' primary).check s).ofLayer k = ((ofLayer l primary).check s).ofLayer k := by
  have hlinks : (ofLayer l primary).SameLinks (ofLayer l' primary).toArena :=
    Arena.sameLinks_of_shape_eq hshape
  rw [ofLayer_check, ofLayer_check, filter_layer_findings, filter_layer_findings, hlinks.size]
  by_cases hk : k < (ofLayer l primary).size
  · rw [if_pos hk, if_pos hk, layerFindings_congr hlinks hk hagree]
  · rw [if_neg hk, if_neg hk]

/-- The topographic service with neither titles nor sources but for one layer. -/
def sparse (k : Nat) : Layer :=
  Samples.service.relabel
    (fun j a => if j = k then a else { a with title := none, source := none }) 0

/-- Without titles and sources there are many more findings on the topographic service, but none
more about the hidden layer, which keeps its own. -/
theorem ofLayer_check_sparse : (sparse 6).shape = Samples.service.shape ∧
    (ofLayer Samples.service .standard).AgreeAt (ofLayer (sparse 6) .standard) 6 ∧
      (ofLayer (sparse 6) .standard).check {} ≠ (ofLayer Samples.service .standard).check {} ∧
      ((ofLayer (sparse 6) .standard).check {}).ofLayer 6
        = ((ofLayer Samples.service .standard).check {}).ofLayer 6 := by
  have hshape : (sparse 6).shape = Samples.service.shape := rfl
  have hagree : (ofLayer Samples.service .standard).AgreeAt (ofLayer (sparse 6) .standard) 6 := by
    refine ⟨by decide +kernel, by decide +kernel, ?_, fun a habove => ?_⟩
    · intro p hp
      have hwater : (ofLayer Samples.service .standard).parent 6 = some 4 := by decide +kernel
      rw [hwater] at hp
      cases hp
      decide +kernel
    · have hlt := habove.lt fun _ _ => parent_lt
      have hboxes : ∀ j < 6, ((ofLayer (sparse 6) .standard).attributes j).boxes
          = ((ofLayer Samples.service .standard).attributes j).boxes := by decide +kernel
      exact hboxes a hlt
  exact ⟨hshape, hagree, by decide +kernel, ofLayer_check_eq hshape hagree⟩

end Hierarchy

end MapLayers
