import MapLayers.Hierarchy.Walk
import MapLayers.Proofs.Layout.Links

/-!
# Walks visit a subtree

A walk has no stack, and climbs from a leaf until it finds a sibling to go on with.  In the arena of
a tree this always leads to the next position, until the subtree of the start is used up
(`Arena.after_eq`).  So the walk below a place visits the positions of its subtree one after the
other (`Arena.descendants_eq`), and the walk below the top visits them all (`Arena.all_eq_range`).

The climb is where something has to be proved.  Its induction is on the position, since each step up
goes to a smaller one, and the statement is about where the subtree of the place ends: the next
sibling of the nearest layer above that has one stands just there, unless the whole walk ends there
too (`Arena.nextAbove_eq`).

For those who only need to know which layers there are, `Arena.mem_all_iff` says that a walk through
all layers gives the positions below the number of layers.
-/

set_option autoImplicit false

namespace MapLayers

namespace Arena

variable {l : Layer} {q r : Place}

/-- The position after `k` among those before `stop`. -/
def upTo (stop k : Nat) : Option Nat := if k < stop then some k else none

/-- Climbing from a place finds where its subtree ends, unless that is where the whole walk ends.
Each step up goes to a smaller position, so the difference of positions bounds the steps. -/
theorem nextAbove_eq (hq : q ∈ (Place.top l).all) (hr : r ∈ q.all) :
    ∀ n, r.position - q.position < n →
      (ofLayer l).nextAbove q.position n r.position
        = upTo (q.position + q.layer.count) (r.position + r.layer.count) := by
  refine Place.all_induction (motive := fun r => ∀ n, r.position - q.position < n →
    (ofLayer l).nextAbove q.position n r.position
      = upTo (q.position + q.layer.count) (r.position + r.layer.count)) q ?_ ?_ r hr
  · intro n hn
    obtain ⟨m, rfl⟩ : ∃ m, n = m + 1 := ⟨n - 1, by omega⟩
    rw [nextAbove, if_pos rfl, upTo, if_neg (Nat.lt_irrefl _)]
  · intro r hr ih c hc n hn
    obtain ⟨m, rfl⟩ : ∃ m, n = m + 1 := ⟨n - 1, by omega⟩
    have hrc := Place.position_lt_of_mem_children hc
    have hqr := (Place.position_mem_all hr).1
    have hend := Place.end_le hr
    have hplace := Place.mem_all_trans hq (Place.mem_all_of_mem_children hr hc)
    rw [nextAbove, if_neg (by omega), nextSibling_eq hplace, parent_eq hplace,
      Place.parent_of_mem_children hc]
    rcases Place.nextSibling_of_mem_children hc with ⟨hs, hlt⟩ | ⟨hs, hlast⟩
    · rw [hs, upTo, if_pos (by omega)]
    · rw [hs, hlast]
      exact ih m (by omega)

/-- **A walk goes on with the next position** of the subtree. -/
theorem after_eq (hq : q ∈ (Place.top l).all) (hr : r ∈ q.all) :
    (ofLayer l).after q.position r.position
      = upTo (q.position + q.layer.count) (r.position + 1) := by
  have hplace := Place.mem_all_trans hq hr
  have hend := Place.end_le hr
  rw [after, firstChild_eq hplace]
  cases hcs : r.layer.children with
  | nil =>
    have hcount : r.layer.count = 1 := by
      rw [← Layer.node_attributes_children r.layer, hcs]
      rfl
    have hlt := position_lt_size hplace
    rw [firstOf_nil, ← hcount]
    exact nextAbove_eq hq hr _ (by omega)
  | cons c cs =>
    have hcount : 1 < r.layer.count := by
      have hpos := c.count_pos
      rw [← Layer.node_attributes_children r.layer, hcs, Layer.count, Layer.countAll]
      omega
    rw [firstOf_cons, upTo, if_pos (by omega)]

/-- With enough steps, a walk visits all positions that are left. -/
theorem take_eq (hq : q ∈ (Place.top l).all) : ∀ (n k : Nat), q.position ≤ k →
    q.position + q.layer.count - k ≤ n →
      Walk.take (ofLayer l) n ⟨q.position, upTo (q.position + q.layer.count) k⟩
        = List.range' k (q.position + q.layer.count - k)
  | 0, k, _, hn => by
    rw [Nat.le_zero.mp hn]
    rfl
  | n + 1, k, hk, hn => by
    by_cases hlt : k < q.position + q.layer.count
    · obtain ⟨r, hr, rfl⟩ := Place.exists_of_position hk hlt
      have hrest := take_eq hq n (r.position + 1) (by omega) (by omega)
      rw [upTo, if_pos hlt, Walk.take, Walk.step]
      simp only
      rw [after_eq hq hr, hrest, ← List.range'_succ]
      congr 1
      omega
    · rw [upTo, if_neg hlt, Nat.sub_eq_zero_of_le (Nat.le_of_not_lt hlt)]
      rfl

/-- **The walk below a layer visits its subtree**, position by position. -/
theorem descendants_eq (hq : q ∈ (Place.top l).all) :
    (ofLayer l).descendants q.position = List.range' q.position q.layer.count := by
  have hpos := q.layer.count_pos
  have hend := Place.end_le hq
  have hsize := size_ofLayer l
  simp only [Place.top] at hend
  have h := take_eq hq (ofLayer l).size q.position (Nat.le_refl _) (by omega)
  rw [upTo, if_pos (by omega), Nat.add_sub_cancel_left] at h
  exact h

theorem all_eq_range (l : Layer) : (ofLayer l).all = List.range l.count := by
  rw [List.range_eq_range']
  exact descendants_eq (Place.mem_all_self (Place.top l))

/-- The walk through all layers goes from place to place. -/
theorem all_eq_positions (l : Layer) :
    (ofLayer l).all = (Place.top l).all.map Place.position := by
  rw [Place.positions_all]
  exact descendants_eq (Place.mem_all_self (Place.top l))

theorem all_eq_range_size (l : Layer) : (ofLayer l).all = List.range (ofLayer l).size := by
  rw [all_eq_range, size_ofLayer]

theorem mem_all_iff {k : Nat} : k ∈ (ofLayer l).all ↔ k < (ofLayer l).size := by
  rw [all_eq_range_size, List.mem_range]

end Arena

end MapLayers
