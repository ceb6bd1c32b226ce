import MapLayers.Hierarchy.Arena

/-!
# Ancestors

The ancestors of a layer are what its links to parents lead to.  `Arena.Above` is the relation
between an ancestor and a layer, and `Arena.Nearest` picks, among the ancestors with some property,
the one that is found first on the way up.

Where parents come before their children the way up ends, so a property that some ancestor has is
had by a nearest one (`Arena.exists_nearest`), and the nearest one of a layer is its parent or the
nearest one of its parent (`Arena.nearest_iff`).  The second of these is a recursion for whoever
works out something nearest by going down, as the pass for effective boxes does: it asks the parent,
which has been asked already.

Nothing here needs a tree.  It is enough that every parent stands before its children, which is how
both are stated.
-/

set_option autoImplicit false

namespace MapLayers

namespace Arena

/-- The first layer is a proper ancestor of the second. -/
inductive Above (t : Arena) (a : Nat) : Nat → Prop
  | parent {k : Nat} : t.parent k = some a → Above t a k
  | up {k p : Nat} : t.parent k = some p → Above t a p → Above t a k

/-- The second layer is the nearest proper ancestor of the first that has a property. -/
structure Nearest (t : Arena) (P : Nat → Prop) (k a : Nat) : Prop where
  /-- It is an ancestor. -/
  above : t.Above a k
  /-- It has the property. -/
  holds : P a
  /-- No layer on the way up to it has. -/
  between : ∀ b, t.Above a b → t.Above b k → ¬ P b

variable {t : Arena} {P : Nat → Prop} {a b k p : Nat}

theorem not_above_of_parent_eq_none (h : t.parent k = none) : ¬ t.Above a k := by
  intro habove
  cases habove with
  | parent hp => rw [h] at hp; cases hp
  | up hp _ => rw [h] at hp; cases hp

theorem above_iff (h : t.parent k = some p) : t.Above a k ↔ a = p ∨ t.Above a p := by
  refine ⟨?_, ?_⟩
  · intro habove
    cases habove with
    | parent hp =>
      rw [h] at hp
      exact Or.inl (Option.some.inj hp).symm
    | up hp hup =>
      rw [h] at hp
      cases hp
      exact Or.inr hup
  · rintro (rfl | hup)
    · exact .parent h
    · exact .up h hup

section

variable (first : ∀ k p, t.parent k = some p → p < k)

include first

theorem Above.lt (h : t.Above a k) : a < k := by
  induction h with
  | parent hp => exact first _ _ hp
  | up hp _ ih => exact Nat.lt_trans ih (first _ _ hp)

/-- **The nearest ancestor is the parent, or nearest to the parent.** -/
theorem nearest_iff (h : t.parent k = some p) :
    t.Nearest P k a ↔ (P p ∧ a = p) ∨ (¬ P p ∧ t.Nearest P p a) := by
  refine ⟨?_, ?_⟩
  · rintro ⟨habove, hholds, hbetween⟩
    rcases (above_iff h).mp habove with rfl | hup
    · exact Or.inl ⟨hholds, rfl⟩
    · exact Or.inr ⟨hbetween p hup (.parent h), hup, hholds, fun b hab hbp =>
        hbetween b hab (.up h hbp)⟩
  · rintro (⟨hp, rfl⟩ | ⟨hp, hup, hholds, hbetween⟩)
    · refine ⟨.parent h, hp, fun b hab hbk => ?_⟩
      -- nothing lies between a layer and its parent
      have hlt := hab.lt first
      rcases (above_iff h).mp hbk with rfl | hba
      · exact absurd hlt (Nat.lt_irrefl _)
      · exact absurd (hba.lt first) (Nat.lt_asymm hlt)
    · refine ⟨.up h hup, hholds, fun b hab hbk => ?_⟩
      rcases (above_iff h).mp hbk with rfl | hbp
      · exact hp
      · exact hbetween b hab hbp

/-- **A property that some ancestor has is had by a nearest one.** -/
theorem exists_nearest (h : t.Above a k) (ha : P a) : ∃ n, t.Nearest P k n := by
  induction h with
  | parent hp => exact ⟨a, (nearest_iff first hp).mpr (Or.inl ⟨ha, rfl⟩)⟩
  | @up k p hp _ ih =>
    by_cases hP : P p
    · exact ⟨p, (nearest_iff first hp).mpr (Or.inl ⟨hP, rfl⟩)⟩
    · obtain ⟨n, hn⟩ := ih
      exact ⟨n, (nearest_iff first hp).mpr (Or.inr ⟨hP, hn⟩)⟩

end

end Arena

end MapLayers
