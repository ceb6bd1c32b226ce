import MapLayers.Proofs.Boxes.Effective
import MapLayers.Proofs.Layout.Ancestors
import MapLayers.Proofs.Layout.Encoding
import MapLayers.Proofs.Layout.Relabelling

/-!
# Boxes come from the nearest ancestor

The pass over the arena looks one level up, at boxes that are worked out already, and never climbs.
What it comes to is said here by climbing: a layer that declares no box for a system has the one of
the nearest ancestor that does, and only when there is none the standard extent of the primary
system (`Hierarchy.inheritsBoxes`).

The step is `Hierarchy.inheritedBox_eq`, which passes on what the parent has; the rest is induction
on positions, since parents come first.  Two consequences are used by the modules about the check.

* `Hierarchy.inheritedBox_eq_some_iff` says which box a layer would have if it declared none, and
  from whom.  No standard extent is ever inherited (`Hierarchy.passedOn_standardBox`).
* `Hierarchy.inheritedBox_congr` says what that depends on: the links, and the first boxes that the
  layers above declare for the system.  Second boxes, other systems and the layer itself play no
  part.

The referenced systems, in which boxes are worked out at all, are the primary one and those for
which somebody declares a box; they are listed in order and none of them twice
(`Arena.pairwise_referenced`).
-/

set_option autoImplicit false

namespace MapLayers

/-! ## Referenced systems in order -/

theorem pairwise_foldl_insert {α : Type} (f : α → Crs) (xs : List α) {cs : List Crs}
    (h : cs.Pairwise (· < ·)) :
    (xs.foldl (fun cs x => Crs.insert (f x) cs) cs).Pairwise (· < ·) := by
  induction xs generalizing cs with
  | nil => exact h
  | cons x xs ih => exact ih (Crs.pairwise_insert h)

/-- The referenced systems are listed in order, none of them twice. -/
theorem Arena.pairwise_referenced (t : Arena) (primary : Crs) :
    (t.referenced primary).Pairwise (· < ·) := by
  have h : ∀ (ns : List Node) (cs : List Crs), cs.Pairwise (· < ·) →
      (ns.foldl (fun cs n => n.attributes.boxes.foldl (fun cs b => Crs.insert b.crs cs) cs)
        cs).Pairwise (· < ·) := by
    intro ns
    induction ns with
    | nil => exact fun _ hcs => hcs
    | cons n ns ih => exact fun cs hcs => ih _ (pairwise_foldl_insert DeclaredBox.crs _ hcs)
  exact h t.nodes.toList [primary] (List.pairwise_singleton _ _)

namespace Hierarchy

/-- The layer at a position declares a box for a system. -/
def Declares (h : Hierarchy) (c : Crs) (k : Nat) : Prop := ∃ b ∈ (h.attributes k).boxes, b.crs = c

/-- The boxes of a hierarchy are those that its layers declare or inherit from the nearest ancestor
that declares one, and in the primary system the standard extent where there are none. -/
structure InheritsBoxes (h : Hierarchy) (l : Layer) (primary : Crs) : Prop where
  /-- The layers have the attributes that they were described with. -/
  attributes : ∀ k : Nat, h.nodes[k]?.map Node.attributes = l.preorder[k]?.map Layer.attributes
  /-- The referenced systems are in order, none of them twice. -/
  increasing : h.referenced.Pairwise (· < ·)
  /-- They are the primary one and those for which boxes are declared. -/
  referenced : ∀ c, c ∈ h.referenced ↔
    c = primary ∨ ∃ s ∈ l.preorder, ∃ b ∈ s.attributes.boxes, b.crs = c
  /-- A layer has the first box that it declares. -/
  declared : ∀ k < h.size, ∀ c b, (h.attributes k).box? c = some b →
    h.effectiveBox k c = some ⟨b.rect, .declared⟩
  /-- Else it has the first box that is declared by the nearest ancestor that declares any. -/
  inherited : ∀ k < h.size, ∀ c, ¬ h.Declares c k → (∃ a, h.Above a k ∧ h.Declares c a) →
    ∃ a b, h.Nearest (h.Declares c) k a ∧ (h.attributes a).box? c = some b ∧
      h.effectiveBox k c = some ⟨b.rect, .inherited a⟩
  /-- Else it has the standard extent in the primary system, and no box in any other. -/
  standard : ∀ k < h.size, ∀ c, ¬ h.Declares c k → (∀ a, h.Above a k → ¬ h.Declares c a) →
    h.effectiveBox k c
      = if c = primary then (standardExtent c).map (⟨·, .standard⟩) else none
  /-- What a layer would inherit is the box of that ancestor, whatever it declares itself. -/
  inheritedBox : ∀ k < h.size, ∀ c e, h.inheritedBox k c = some e ↔
    ∃ a b, h.Nearest (h.Declares c) k a ∧ (h.attributes a).box? c = some b ∧
      e = ⟨b.rect, .inherited a⟩
  /-- There is something to inherit just when an ancestor declares it. -/
  inherits : ∀ k < h.size, ∀ c, (h.inheritedBox k c).isSome ↔ ∃ a, h.Above a k ∧ h.Declares c a

variable {l : Layer} {primary c : Crs} {k p : Nat} {b : DeclaredBox} {e : EffectiveBox}

/-! ## Boxes by position

The equations for places, put in terms of positions, which is the form in which reports and settings
talk about layers. -/

/-- **The effective box of a layer**, by its position. -/
theorem effectiveBox_of_lt (h : k < (ofLayer l primary).size) (c : Crs) :
    (ofLayer l primary).effectiveBox k c
      = (((ofLayer l primary).attributes k).declaredBox c).or
          (((ofLayer l primary).inheritedBox k c).or (standardBox primary c)) := by
  obtain ⟨q, hq, rfl⟩ := Arena.exists_place h
  rw [effectiveBox_eq hq]
  congr 2
  exact (Arena.attributes_eq hq).symm

theorem parent_lt (h : (ofLayer l primary).parent k = some p) : p < k :=
  (Arena.encodes l).parent_lt k p h

theorem parent_lt_size (h : (ofLayer l primary).parent k = some p) :
    p < (ofLayer l primary).size := by
  obtain ⟨q, hq, rfl, -⟩ := Arena.parent_eq_some_iff.mp h
  exact Arena.position_lt_size hq

theorem declares_iff_box? {h : Hierarchy} :
    h.Declares c k ↔ ∃ b, (h.attributes k).box? c = some b := by
  rw [← Option.ne_none_iff_exists', Ne, Attributes.box?_eq_none_iff, Declares]
  simp

theorem effectiveBox_of_box? (hk : k < (ofLayer l primary).size)
    (hb : ((ofLayer l primary).attributes k).box? c = some b) :
    (ofLayer l primary).effectiveBox k c = some ⟨b.rect, .declared⟩ := by
  rw [effectiveBox_of_lt hk, Attributes.declaredBox, hb]
  rfl

theorem effectiveBox_of_not_declares (hk : k < (ofLayer l primary).size)
    (h : ¬ (ofLayer l primary).Declares c k) : (ofLayer l primary).effectiveBox k c
      = ((ofLayer l primary).inheritedBox k c).or (standardBox primary c) := by
  have hnone : ((ofLayer l primary).attributes k).declaredBox c = none := by
    rw [Attributes.declaredBox_eq_none_iff]
    exact fun b hb heq => h ⟨b, hb, heq⟩
  rw [effectiveBox_of_lt hk, hnone, Option.none_or]

/-! ## What is passed on

A box is inherited from the parent, which has it from above unless it declares one.  Followed
upwards this leads to the nearest ancestor that declares one, by induction on the position. -/

/-- Standard extents are not passed on. -/
theorem passedOn_standardBox : (standardBox primary c).bind (passedOn p) = none := by
  rw [standardBox]
  split
  · cases standardExtent c <;> rfl
  · rfl

/-- **A layer inherits the box of the nearest ancestor that declares one.** -/
theorem inheritedBox_eq_some_iff (c : Crs) (e : EffectiveBox) (k : Nat) :
    (ofLayer l primary).inheritedBox k c = some e ↔
      ∃ a b, (ofLayer l primary).Nearest ((ofLayer l primary).Declares c) k a ∧
        ((ofLayer l primary).attributes a).box? c = some b ∧ e = ⟨b.rect, .inherited a⟩ := by
  induction k using Nat.strongRecOn generalizing e with
  | ind k ih =>
    rw [inheritedBox_eq]
    cases hparent : (ofLayer l primary).parent k with
    | none =>
      refine ⟨fun h => absurd h (by simp), ?_⟩
      rintro ⟨a, b, hnearest, -⟩
      exact absurd hnearest.above (Arena.not_above_of_parent_eq_none hparent)
    | some p =>
      have hp := parent_lt_size hparent
      simp only [Option.bind_some, Arena.nearest_iff (fun _ _ => parent_lt) hparent]
      by_cases hdeclares : (ofLayer l primary).Declares c p
      · -- the parent declares a box, and passes on that one
        obtain ⟨b, hb⟩ := declares_iff_box?.mp hdeclares
        rw [effectiveBox_of_box? hp hb]
        simp [passedOn, hdeclares, hb, eq_comm]
      · -- the parent passes on what it inherits, and never a standard extent
        have hpassed : (((ofLayer l primary).inheritedBox p c).or (standardBox primary c)).bind
            (passedOn p) = (ofLayer l primary).inheritedBox p c := by
          cases hi : (ofLayer l primary).inheritedBox p c with
          | none => rw [Option.none_or, passedOn_standardBox]
          | some i =>
            obtain ⟨a, b, -, -, rfl⟩ := (ih p (parent_lt hparent) i).mp hi
            rfl
        rw [effectiveBox_of_not_declares hp hdeclares, hpassed, ih p (parent_lt hparent)]
        simp [hdeclares]

/-- What a layer inherits is what its parent declares, and else what its parent inherits. -/
theorem inheritedBox_of_parent (hparent : (ofLayer l primary).parent k = some p) (c : Crs) :
    (ofLayer l primary).inheritedBox k c
      = ((((ofLayer l primary).attributes p).box? c).map fun b => ⟨b.rect, .inherited p⟩).or
          ((ofLayer l primary).inheritedBox p c) := by
  have hp := parent_lt_size hparent
  cases hb : ((ofLayer l primary).attributes p).box? c with
  | some b =>
    rw [inheritedBox_eq, hparent, Option.bind_some, effectiveBox_of_box? hp hb]
    rfl
  | none =>
    have hdeclares : ¬ (ofLayer l primary).Declares c p := by
      rw [declares_iff_box?, hb]
      simp
    refine Option.ext fun e => ?_
    rw [inheritedBox_eq_some_iff, Option.map_none, Option.none_or, inheritedBox_eq_some_iff]
    simp only [Arena.nearest_iff (fun _ _ => parent_lt) hparent, hdeclares, false_and, false_or,
      not_false_eq_true, true_and]

/-- **What is inherited in a system follows from the links and from the first boxes** that the
layers above declare for it. -/
theorem inheritedBox_congr {l' : Layer} {primary' : Crs}
    (hlinks : (ofLayer l primary).SameLinks (ofLayer l' primary').toArena)
    (hboxes : ∀ a, (ofLayer l primary).Above a k →
      ((ofLayer l' primary').attributes a).box? c = ((ofLayer l primary).attributes a).box? c) :
    (ofLayer l' primary').inheritedBox k c = (ofLayer l primary).inheritedBox k c := by
  induction k using Nat.strongRecOn with
  | ind k ih =>
    cases hparent : (ofLayer l primary).parent k with
    | none =>
      have hparent' : (ofLayer l' primary').parent k = none := by
        rw [hlinks.parent, hparent]
      rw [inheritedBox_eq, inheritedBox_eq, hparent, hparent']
      rfl
    | some p =>
      have hparent' : (ofLayer l' primary').parent k = some p := by
        rw [hlinks.parent, hparent]
      rw [inheritedBox_of_parent hparent, inheritedBox_of_parent hparent',
        hboxes p (.parent hparent), ih p (parent_lt hparent) fun a ha => hboxes a (.up hparent ha)]

theorem isSome_inheritedBox_iff : ((ofLayer l primary).inheritedBox k c).isSome ↔
    ∃ a, (ofLayer l primary).Above a k ∧ (ofLayer l primary).Declares c a := by
  rw [Option.isSome_iff_exists]
  refine ⟨?_, ?_⟩
  · rintro ⟨e, he⟩
    obtain ⟨a, b, hnearest, -, -⟩ := (inheritedBox_eq_some_iff c e k).mp he
    exact ⟨a, hnearest.above, hnearest.holds⟩
  · rintro ⟨a, habove, hdeclares⟩
    obtain ⟨n, hn⟩ := Arena.exists_nearest (fun _ _ => parent_lt) habove hdeclares
    obtain ⟨b, hb⟩ := declares_iff_box?.mp hn.holds
    exact ⟨_, (inheritedBox_eq_some_iff c _ k).mpr ⟨n, b, hn, hb, rfl⟩⟩

/-- **Boxes are inherited from the nearest ancestor that declares them.** -/
theorem inheritsBoxes (l : Layer) (primary : Crs) :
    (ofLayer l primary).InheritsBoxes l primary where
  attributes := (Arena.encodes l).attributes
  increasing := Arena.pairwise_referenced _ _
  referenced c := by
    rw [mem_referenced_iff]
    refine or_congr_right ⟨?_, ?_⟩
    · rintro ⟨q, hq, hb⟩
      exact ⟨q.layer, List.mem_of_getElem? (Place.preorder_eq_some_iff.mpr ⟨q, hq, rfl, rfl⟩), hb⟩
    · rintro ⟨s, hs, hb⟩
      obtain ⟨k, hk⟩ := List.mem_iff_getElem?.mp hs
      obtain ⟨q, hq, -, rfl⟩ := Place.preorder_eq_some_iff.mp hk
      exact ⟨q, hq, hb⟩
  declared k hk c b := effectiveBox_of_box? hk
  inherited k hk c hnot habove := by
    obtain ⟨e, he⟩ := Option.isSome_iff_exists.mp (isSome_inheritedBox_iff.mpr habove)
    obtain ⟨a, b, hnearest, hb, rfl⟩ := (inheritedBox_eq_some_iff c e k).mp he
    refine ⟨a, b, hnearest, hb, ?_⟩
    rw [effectiveBox_of_not_declares hk hnot, he, Option.some_or]
  standard k hk c hnot hnone := by
    have hinherited : (ofLayer l primary).inheritedBox k c = none := by
      rw [← Option.not_isSome_iff_eq_none, isSome_inheritedBox_iff]
      rintro ⟨a, habove, hdeclares⟩
      exact hnone a habove hdeclares
    rw [effectiveBox_of_not_declares hk hnot, hinherited, Option.none_or, standardBox]
  inheritedBox k _ c e := inheritedBox_eq_some_iff c e k
  inherits k _ c := isSome_inheritedBox_iff

end Hierarchy

end MapLayers
