import MapLayers.Flat.Sweep
import MapLayers.Proofs.Flat.Forest

/-!
# What a sweep marks

A sweep visits the sprouts on its stack one after the other, each in pre-order, taking as many steps
as the sprout has positions (`Sprout.run_eq`).  So a sweep of a list of parents ends with nothing
left to visit, and what is marked then is what hangs below a position without a parent
(`IsForest.ofParents_eq`).

The first entry that is left unmarked is the one that a cycle is reported for.  When there is none,
every position hangs (`firstUnmarked_eq_none_iff`), and what is left unmarked first is the first
position that does not (`firstUnmarked_eq_some_iff`), so the report does not depend on the order of
the visits.

This is about the sweep as it runs, along the sprouts that it meets.  What is true of any sweep,
whichever pending entry it takes next, is the subject of `MapLayers.Proofs.Flat.Visits`.
-/

set_option autoImplicit false

namespace MapLayers

namespace Sweep

variable {children : Array (List Nat)} {marked : Array Bool} {i n : Nat}

/-- Mark some positions. -/
def mark (marked : Array Bool) (ps : List Nat) : Array Bool :=
  ps.foldl (fun marked i => marked.setIfInBounds i true) marked

theorem mark_append (ps qs : List Nat) : mark marked (ps ++ qs) = mark (mark marked ps) qs :=
  List.foldl_append

@[simp] theorem size_mark (ps : List Nat) : (mark marked ps).size = marked.size := by
  induction ps generalizing marked with
  | nil => rfl
  | cons p ps ih => exact ih.trans Array.size_setIfInBounds

theorem getElem_mark (ps : List Nat) (h : i < marked.size) :
    (mark marked ps)[i]? = some (marked[i] || decide (i ∈ ps)) := by
  induction ps generalizing marked with
  | nil => simp [mark, h]
  | cons p ps ih =>
    have h' : i < (marked.setIfInBounds p true).size := by rwa [Array.size_setIfInBounds]
    have hrest := ih h'
    rw [mark, List.foldl_cons]
    refine hrest.trans ?_
    rw [Array.getElem_setIfInBounds h]
    by_cases hp : p = i
    · simp [hp]
    · have hp' : ¬ i = p := fun h => hp h.symm
      simp [hp, hp']

theorem run_nil : ∀ n, run children n ⟨marked, []⟩ = ⟨marked, []⟩
  | 0 => rfl
  | n + 1 => run_nil n

end Sweep

namespace Sprout

open Sweep

variable {children : Array (List Nat)}

mutual

/-- **A sprout is visited in pre-order**, in one step for each position. -/
theorem run_eq : ∀ (t : Sprout) {n : Nat} {marked : Array Bool} {rest : List Nat},
    t.Follows (children.getD · []) →
      run children (n + t.positions.length) ⟨marked, t.position :: rest⟩
        = run children n ⟨mark marked t.positions, rest⟩
  | .node i ts, n, marked, rest, h => by
    have hchildren : children.getD i [] = ts.map position := h.1.symm
    have hall : run children (n + (positionsAll ts).length)
        ⟨marked.setIfInBounds i true, ts.map position ++ rest⟩ = _ := run_all_eq ts h.2
    rw [positions, List.length_cons, ← Nat.add_assoc, run, step]
    simp only [position]
    rw [hchildren, hall]
    rfl

theorem run_all_eq : ∀ (ts : List Sprout) {n : Nat} {marked : Array Bool} {rest : List Nat},
    FollowAll (children.getD · []) ts →
      run children (n + (positionsAll ts).length) ⟨marked, ts.map position ++ rest⟩
        = run children n ⟨mark marked (positionsAll ts), rest⟩
  | [], _, _, _, _ => rfl
  | t :: ts, n, marked, rest, h => by
    have hsteps : n + (positionsAll (t :: ts)).length
        = n + (positionsAll ts).length + t.positions.length := by
      rw [positionsAll, List.length_append]
      omega
    rw [hsteps, List.map_cons, List.cons_append, run_eq t h.1, run_all_eq ts h.2, positionsAll,
      mark_append]

end

end Sprout

namespace IsForest

variable {parents : List (Option Nat)} {ts : List Sprout} {i : Nat}

/-- **A sweep ends**, with the forest marked. -/
theorem ofParents_eq (h : IsForest parents ts) : Sweep.ofParents parents
    = ⟨Sweep.mark (Array.replicate parents.length false) (Sprout.positionsAll ts), []⟩ := by
  obtain ⟨d, hd⟩ := Nat.exists_eq_add_of_le' h.length_le
  have hrun : Sweep.run (childTable parents) (d + (Sprout.positionsAll ts).length)
      ⟨Array.replicate parents.length false, ts.map Sprout.position ++ []⟩ = _ :=
    Sprout.run_all_eq ts h.follow
  rw [List.append_nil, h.starts, Sweep.run_nil, ← hd] at hrun
  exact hrun

/-- The marks of the sweep are those of what hangs below a position without a parent. -/
theorem marked_eq (h : IsForest parents ts) : (Sweep.ofParents parents).marked.toList
    = (List.range parents.length).map fun i => decide (i ∈ Sprout.positionsAll ts) := by
  rw [h.ofParents_eq]
  refine List.ext_getElem? fun i => ?_
  rw [Array.getElem?_toList]
  by_cases hi : i < parents.length
  · rw [Sweep.getElem_mark _ (by simpa using hi)]
    simp [hi]
  · rw [Array.getElem?_eq_none (by simpa using hi)]
    simp [hi]

end IsForest

section

variable {parents : List (Option Nat)} {i : Nat}

theorem firstUnmarked_eq_none_iff : (Sweep.ofParents parents).firstUnmarked = none ↔
    ∀ i < parents.length, Hangs parents i := by
  obtain ⟨ts, h⟩ := exists_isForest parents
  rw [Sweep.firstUnmarked, h.marked_eq, List.findIdx?_eq_none_iff, List.forall_mem_map]
  simp [h.mem_iff]

theorem firstUnmarked_eq_some_iff : (Sweep.ofParents parents).firstUnmarked = some i ↔
    i < parents.length ∧ ¬ Hangs parents i ∧ ∀ j < i, Hangs parents j := by
  obtain ⟨ts, h⟩ := exists_isForest parents
  rw [Sweep.firstUnmarked, h.marked_eq, List.findIdx?_eq_some_iff_getElem]
  simp only [List.length_map, List.length_range, List.getElem_map, List.getElem_range, h.mem_iff,
    Bool.not_eq_true', decide_eq_false_iff_not, not_not, exists_prop]

end

end MapLayers
