import MapLayers.Proofs.Boxes.Removal
import MapLayers.Proofs.Check.Local
import MapLayers.Proofs.Check.Order
import MapLayers.Samples

/-!
# Redundancy is judged on the boxes in use

A layer is warned about the box that it declares for a system when it would inherit an equal one.
The check comes to the first box for the system by remembering which systems it has met, and the
hierarchy by looking for the first; what would be inherited is read off the boxes of the parent.
Here all of that is put together: the warning is given just when the first box of the layer equals
the first box of the nearest ancestor that declares any, it is given once, and these two boxes are
the one in effect and the one that would be inherited (`Hierarchy.judgesUsedBoxes`).

The condition is `Hierarchy.RepeatsBox`, which mentions no check and no table, only links and
declared boxes.  That it is the condition of the check is `Hierarchy.repeatsBox_iff`; that a layer
is warned once and of nothing else is `Hierarchy.RepeatsBox.redundancies_eq` and
`Hierarchy.redundancies_ne_nil_iff`.

So the warnings depend on links, names and first boxes alone (`Hierarchy.redundancies_congr`).
Further boxes for a system change nothing, and standard extents play no part.
-/

set_option autoImplicit false

namespace MapLayers

/-- The findings of a report that a layer declares a redundant box for a system. -/
def Report.redundancies (r : Report) (k : Nat) (c : Crs) : List Finding :=
  (r.ofRule .redundantBoundingBox).filter fun f => f.layer == some k && f.detail == some c.id

namespace Hierarchy

/-- The first box that a layer declares for a system equals the first one that an ancestor does,
which is the nearest that declares any. -/
structure RepeatsBox (h : Hierarchy) (k : Nat) (c : Crs) (a : Nat) : Prop where
  nearest : h.Nearest (h.Declares c) k a
  same : ∃ b d, (h.attributes k).box? c = some b ∧ (h.attributes a).box? c = some d ∧
    (d.rect == b.rect) = true

/-- The warning that a layer repeats the box of an ancestor. -/
def repetitionOf (h : Hierarchy) (k : Nat) (c : Crs) (a : Nat) : Finding where
  severity := .warning
  rule := .redundantBoundingBox
  layer := some k
  layerName := h.name k
  field := some .boundingBoxes
  related := some a
  detail := some c.id

/-- Two hierarchies have the same links and names, and every layer declares the same first boxes.
They may differ in further boxes for the same systems, and in everything else. -/
structure SameFirstBoxes (h h' : Hierarchy) : Prop where
  links : h.SameLinks h'.toArena
  names : ∀ k, h'.name k = h.name k
  boxes : ∀ k c, (h'.attributes k).box? c = (h.attributes k).box? c

/-- A report warns about redundant boxes by the boxes that are in use. -/
structure JudgesUsedBoxes (h : Hierarchy) (r : Report) : Prop where
  /-- All that is said about redundant boxes is a warning about a layer and a system. -/
  warnings : ∀ f ∈ r.ofRule .redundantBoundingBox, f ∈ r.warnings ∧ f ∉ r.errors ∧
    ∃ k c, f ∈ r.redundancies k c
  /-- A box is called redundant just when it repeats that of the nearest ancestor that declares
  one. -/
  reported : ∀ k c, r.redundancies k c ≠ [] ↔ ∃ a, h.RepeatsBox k c a
  /-- This is said once, and refers to that ancestor. -/
  once : ∀ k c a, h.RepeatsBox k c a → r.redundancies k c = [h.repetitionOf k c a]
  /-- The box in question is the one in effect, and it equals the one that would be inherited. -/
  used : ∀ k c a, h.RepeatsBox k c a → ∃ b rect, (h.attributes k).box? c = some b ∧
    h.effectiveBox k c = some ⟨b.rect, .declared⟩ ∧
    h.inheritedBox k c = some ⟨rect, .inherited a⟩ ∧ (rect == b.rect) = true
  /-- Where no ancestor declares a box nothing is redundant, whatever the standard extent is. -/
  standard : ∀ k c, (∀ a, h.Above a k → ¬ h.Declares c a) → r.redundancies k c = []
  /-- Further boxes for a system make no difference, nor do the primary system and the settings. -/
  further : ∀ (l' : Layer) (primary' : Crs) (s' : Settings),
    h.SameFirstBoxes (ofLayer l' primary') → ∀ k c,
      ((ofLayer l' primary').check s').redundancies k c = r.redundancies k c

end Hierarchy

namespace Hierarchy

variable {l l' : Layer} {primary primary' c : Crs} {s s' : Settings} {k a : Nat}

/-! ## The warnings of a report

The warnings about redundancy for one layer and one system are picked out of a report.  There is one
or none, and a condition on declared boxes says which. -/

/-- **What a report says about a box that is redundant** follows from the first box of the layer for
the system and from what it would inherit. -/
theorem redundancies_check (l : Layer) (primary : Crs) (s : Settings) (k : Nat) (c : Crs) :
    ((ofLayer l primary).check s).redundancies k c
      = ((((ofLayer l primary).attributes k).box? c).bind fun b =>
          ((ofLayer l primary).inheritedBox k c).filter (·.rect == b.rect)).toList.map
            fun e => (redundantBox c e).located k ((ofLayer l primary).name k) := by
  have hsplit : ((ofLayer l primary).check s).redundancies k c
      = ((((ofLayer l primary).findings s).filter (·.rule == .redundantBoundingBox)).filter
          (·.layer == some k)).filter (·.detail == some c.id) := by
    rw [Report.redundancies, ofRule_check]
    exact (List.filter_congr fun _ _ => Bool.and_comm _ _).trans List.filter_filter.symm
  rw [hsplit, filter_rule_layer_findings]
  split
  · have hprimary : (checkPrimaryBox s ((ofLayer l primary).effectiveBox k s.primary)).filter
        (fun f => f.rule == .redundantBoundingBox && f.detail == some c.id) = [] := by
      refine List.filter_eq_nil_iff.mpr fun f hf => ?_
      rw [rule_of_mem_checkPrimaryBox hf]
      exact Bool.false_ne_true
    have hboxes : (checkDeclaredBoxes ((ofLayer l primary).inheritedBox k) []
          ((ofLayer l primary).attributes k).boxes).filter
            (fun f => f.rule == .redundantBoundingBox && f.detail == some c.id) = _ :=
      filter_checkDeclaredBoxes_redundant _ []
    rw [if_neg List.not_mem_nil] at hboxes
    have hgroup := congrArg₂ (· ++ ·) hboxes hprimary
    rw [← List.filter_append, List.append_nil] at hgroup
    -- placing a finding at the layer leaves its detail as it is
    rw [List.filter_map, List.filter_filter]
    refine (congrArg (List.map _) ((List.filter_congr fun f _ => ?_).trans hgroup)).trans
      List.map_map
    exact Bool.and_comm _ _
  · rename_i hk
    have hnone : ((ofLayer l primary).attributes k).box? c = none := by
      rw [Arena.attributes_of_size_le (Nat.not_lt.mp hk)]
      rfl
    rw [hnone]
    rfl

/-- To repeat the box of an ancestor is to declare one that equals the inherited box. -/
theorem repeatsBox_iff : (ofLayer l primary).RepeatsBox k c a ↔
    ∃ b rect, (ofLayer l primary).Repeats k c b ⟨rect, .inherited a⟩ := by
  refine ⟨?_, ?_⟩
  · rintro ⟨hnearest, b, d, hb, hd, heq⟩
    exact ⟨b, d.rect, hb, (inheritedBox_eq_some_iff c _ k).mpr ⟨a, d, hnearest, hd, rfl⟩, heq⟩
  · rintro ⟨b, rect, hb, hinherited, heq⟩
    obtain ⟨a', d, hnearest, hd, he⟩ := (inheritedBox_eq_some_iff c _ k).mp hinherited
    cases he
    exact ⟨hnearest, b, d, hb, hd, heq⟩

/-- **A layer that repeats a box is warned of it, once.** -/
theorem RepeatsBox.redundancies_eq (h : (ofLayer l primary).RepeatsBox k c a) (s : Settings) :
    ((ofLayer l primary).check s).redundancies k c = [(ofLayer l primary).repetitionOf k c a] := by
  obtain ⟨b, rect, hb, hinherited, heq⟩ := repeatsBox_iff.mp h
  have hfilter : ((ofLayer l primary).inheritedBox k c).filter (·.rect == b.rect)
      = some ⟨rect, .inherited a⟩ := Option.filter_eq_some_iff.mpr ⟨hinherited, heq⟩
  rw [redundancies_check, hb, Option.bind_some, hfilter]
  rfl

/-- **A layer is warned just of the boxes that it repeats.** -/
theorem redundancies_ne_nil_iff : ((ofLayer l primary).check s).redundancies k c ≠ [] ↔
    ∃ a, (ofLayer l primary).RepeatsBox k c a := by
  refine ⟨fun h => ?_, ?_⟩
  · obtain ⟨f, hf⟩ := List.exists_mem_of_ne_nil _ h
    rw [redundancies_check] at hf
    obtain ⟨e, he, -⟩ := List.mem_map.mp hf
    obtain ⟨b, hb, hfilter⟩ := Option.bind_eq_some_iff.mp (Option.mem_toList.mp he)
    obtain ⟨hinherited, heq⟩ := Option.filter_eq_some_iff.mp hfilter
    obtain ⟨a, d, -, -, rfl⟩ := (inheritedBox_eq_some_iff c e k).mp hinherited
    exact ⟨a, repeatsBox_iff.mpr ⟨b, d.rect, hb, hinherited, heq⟩⟩
  · rintro ⟨a, ha⟩
    rw [ha.redundancies_eq]
    exact List.cons_ne_nil _ _

/-- **Redundancy follows from links, names and first boxes.** -/
theorem redundancies_congr (h : (ofLayer l primary).SameFirstBoxes (ofLayer l' primary')) :
    ((ofLayer l' primary').check s').redundancies k c
      = ((ofLayer l primary).check s).redundancies k c := by
  rw [redundancies_check, redundancies_check, h.names, h.boxes,
    inheritedBox_congr h.links fun a _ => h.boxes a c]

/-- Every finding about redundancy is about a layer and a system. -/
theorem exists_redundancies {f : Finding}
    (hf : f ∈ ((ofLayer l primary).check s).ofRule .redundantBoundingBox) :
    ∃ k c, f ∈ ((ofLayer l primary).check s).redundancies k c := by
  have hmem := hf
  rw [ofRule_check, List.mem_filter, beq_iff_eq] at hmem
  obtain ⟨hfinding, hrule⟩ := hmem
  have hlayer : f.layer ≠ none := by
    rw [Ne, layer_eq_none_iff hfinding, hrule]
    exact Rule.noConfusion
  obtain ⟨k, hk⟩ := Option.ne_none_iff_exists'.mp hlayer
  obtain ⟨names, hnames⟩ := exists_of_mem_findings hk hfinding
  obtain ⟨g, hg, rfl⟩ := (mem_layerFindings_iff_of_declaredBox (Or.inr hrule)).mp hnames
  obtain ⟨b, -, rfl | ⟨e, -, -, rfl⟩⟩ := cases_of_mem_checkDeclaredBoxes hg
  · cases hrule
  · refine ⟨k, b.crs, List.mem_filter.mpr ⟨hf, ?_⟩⟩
    exact Bool.and_eq_true_iff.mpr ⟨beq_self_eq_true (some k), beq_self_eq_true (some b.crs.id)⟩

/-- **Redundancy is judged on the boxes in use.** -/
theorem judgesUsedBoxes (l : Layer) (primary : Crs) (s : Settings) :
    (ofLayer l primary).JudgesUsedBoxes ((ofLayer l primary).check s) where
  warnings f hf := by
    have hmem := hf
    rw [ofRule_check, List.mem_filter, beq_iff_eq] at hmem
    have hseverity : f.severity = .warning := by
      rw [severity_of_mem_findings hmem.1, hmem.2]
      rfl
    refine ⟨?_, fun herror => ?_, exists_redundancies hf⟩
    · rw [warnings_check, List.mem_filter, beq_iff_eq]
      exact ⟨hmem.1, hseverity⟩
    · have hother := (mem_errors_check_iff.mp herror).2
      rw [hseverity] at hother
      cases hother
  reported _ _ := redundancies_ne_nil_iff
  once _ _ _ h := h.redundancies_eq s
  used k c a h := by
    obtain ⟨b, rect, hb, hinherited, heq⟩ := repeatsBox_iff.mp h
    exact ⟨b, rect, hb, effectiveBox_of_box? (Arena.lt_size_of_box? hb) hb, hinherited, heq⟩
  standard k c hnone := by
    by_contra hne
    obtain ⟨a, ha⟩ := redundancies_ne_nil_iff.mp hne
    exact hnone a ha.nearest.above ha.nearest.holds
  further _ _ _ h _ _ := redundancies_congr h

/-- A data layer with the box of the top layer and a second one, below a group without boxes. -/
def repeatedFirstBox : Layer :=
  let box := .ofQuotients 10 32 507 73 536
  ((Layer.described "top").withBox .standard box).withChild ((Layer.described "group").withChild
    (((Samples.plainData "data").withBox .standard box).withBox .standard
      (.ofQuotients 1 0 0 1 1)))

example : ((ofLayer repeatedFirstBox .standard).check {}).redundancies 2 .standard
    = [(ofLayer repeatedFirstBox .standard).repetitionOf 2 .standard 0] := by decide +kernel

end Hierarchy

end MapLayers
