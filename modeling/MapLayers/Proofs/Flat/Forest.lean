import MapLayers.Flat.Links
import MapLayers.Proofs.Flat.Sprouts

/-!
# The forest of a list of parents

A list with at most one parent for each position lists every position at most once as a child
(`listedOnce_childrenOf`), and those without a parent not at all (`apart_roots`).  So the positions
without a parent start sprouts (`exists_isForest`), which have no position in common
(`IsForest.nodup`) and contain just what hangs below a position without a parent
(`IsForest.mem_iff`).

Nothing is asked of the list of parents, which may well have cycles.  These are left outside:
`Hangs` is what is reached from a position without a parent, and the positions on a cycle, with all
below them, do not hang.  A list of which everything hangs is the good case, in which the forest has
all positions (`IsForest.perm_range`).
-/

set_option autoImplicit false

namespace MapLayers

/-- The children of a position, by a list of parents. -/
def childrenOf (parents : List (Option Nat)) (i : Nat) : List Nat := (childTable parents).getD i []

variable {parents : List (Option Nat)} {i c : Nat}

theorem childrenOf_of_le (h : parents.length ≤ i) : childrenOf parents i = [] := by
  rw [childrenOf, Array.getD_eq_getD_getElem?, Array.getElem?_eq_none (by rwa [size_childTable])]
  rfl

theorem mem_childrenOf :
    c ∈ childrenOf parents i ↔ i < parents.length ∧ parents[c]? = some (some i) := by
  by_cases hi : i < parents.length
  · rw [childrenOf, getD_childTable hi, mem_positionsUnder]
    simp [hi]
  · rw [childrenOf_of_le (Nat.le_of_not_lt hi)]
    simp [hi]

theorem listedOnce_childrenOf (parents : List (Option Nat)) : ListedOnce (childrenOf parents) where
  nodup i := by
    by_cases hi : i < parents.length
    · rw [childrenOf, getD_childTable hi]
      exact (pairwise_positionsUnder parents (some i)).imp fun h => Nat.ne_of_lt h
    · rw [childrenOf_of_le (Nat.le_of_not_lt hi)]
      exact List.nodup_nil
  parent_eq hi hj := by
    have h := (mem_childrenOf.mp hi).2
    rw [(mem_childrenOf.mp hj).2] at h
    exact (Option.some.inj (Option.some.inj h)).symm

theorem nodup_positionsUnder (parents : List (Option Nat)) (parent : Option Nat) :
    (positionsUnder parents parent).Nodup :=
  (pairwise_positionsUnder parents parent).imp fun h => Nat.ne_of_lt h

/-- What has no parent is listed nowhere. -/
theorem apart_roots (parents : List (Option Nat)) :
    Apart (childrenOf parents) (positionsUnder parents none) := by
  refine Apart.of_not_listed fun i hi j hj => ?_
  rw [mem_positionsUnder, (mem_childrenOf.mp hj).2] at hi
  simp at hi

/-- A position hangs below one without a parent. -/
def Hangs (parents : List (Option Nat)) (i : Nat) : Prop :=
  ∃ root ∈ positionsUnder parents none, ∃ k, Below (childrenOf parents) root k i

namespace Hangs

theorem of_root (h : parents[i]? = some none) : Hangs parents i :=
  ⟨i, mem_positionsUnder.mpr h, 0, Below.here⟩

theorem of_parent {p : Nat} (hp : Hangs parents p) (hlt : p < parents.length)
    (h : parents[i]? = some (some p)) : Hangs parents i := by
  obtain ⟨root, hroot, k, hk⟩ := hp
  exact ⟨root, hroot, k + 1, hk.child (mem_childrenOf.mpr ⟨hlt, h⟩)⟩

/-- What hangs has no parent, or one that hangs. -/
theorem cases (h : Hangs parents i) :
    parents[i]? = some none ∨ ∃ p, parents[i]? = some (some p) ∧ Hangs parents p := by
  obtain ⟨root, hroot, k, hk⟩ := h
  cases hk with
  | here => exact Or.inl (mem_positionsUnder.mp hroot)
  | child hp hc => exact Or.inr ⟨_, (mem_childrenOf.mp hc).2, root, hroot, _, hp⟩

theorem lt_length (h : Hangs parents i) : i < parents.length := by
  rcases h.cases with hnone | ⟨p, hp, -⟩
  · exact (List.getElem?_eq_some_iff.mp hnone).1
  · exact (List.getElem?_eq_some_iff.mp hp).1

end Hangs

/-- The sprouts at the positions without a parent. -/
structure IsForest (parents : List (Option Nat)) (ts : List Sprout) : Prop where
  starts : ts.map Sprout.position = positionsUnder parents none
  follow : Sprout.FollowAll (childrenOf parents) ts

theorem exists_isForest (parents : List (Option Nat)) : ∃ ts, IsForest parents ts := by
  obtain ⟨ts, hts, hfollow⟩ := Sprout.exists_followAll fun i hi =>
    Sprout.exists_follows (listedOnce_childrenOf parents) (fun _ => childrenOf_of_le)
      ((apart_roots parents).of_mem hi)
  exact ⟨ts, hts, hfollow⟩

namespace IsForest

variable {ts : List Sprout} (h : IsForest parents ts)

include h

/-- **The forest contains what hangs below a position without a parent.** -/
theorem mem_iff : i ∈ Sprout.positionsAll ts ↔ Hangs parents i := by
  rw [Sprout.mem_positionsAll_iff h.follow, h.starts]
  rfl

/-- **No position is twice in the forest.** -/
theorem nodup : (Sprout.positionsAll ts).Nodup := by
  refine Sprout.nodup_positionsAll (listedOnce_childrenOf parents) h.follow ?_ ?_
  · rw [h.starts]
    exact apart_roots parents
  · rw [h.starts]
    exact nodup_positionsUnder parents none

theorem length_le : (Sprout.positionsAll ts).length ≤ parents.length :=
  length_le_of_nodup h.nodup fun _ hi => (h.mem_iff.mp hi).lt_length

/-- When everything hangs below a position without a parent, the forest has all positions. -/
theorem perm_range (hall : ∀ i < parents.length, Hangs parents i) :
    (Sprout.positionsAll ts).Perm (List.range parents.length) := by
  refine (List.perm_ext_iff_of_nodup h.nodup List.nodup_range).mpr fun i => ?_
  rw [List.mem_range]
  exact ⟨fun hi => (h.mem_iff.mp hi).lt_length, fun hi => h.mem_iff.mpr (hall i hi)⟩

end IsForest

end MapLayers
