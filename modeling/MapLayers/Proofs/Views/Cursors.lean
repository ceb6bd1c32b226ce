import MapLayers.Proofs.Guarded.Reading
import MapLayers.Proofs.Layout.Ancestors

/-!
# Cursors through a subtree

A cursor remembers only where it started and which layer comes next.  In the arena of a tree, the
layers of a subtree stand in a row, and the cursor goes from one to the next until the row ends
(`Arena.next_within`).  So however far it has been advanced, it gives just what is left of the row,
and then nothing any more (`Hierarchy.walksSubtrees`).

`Cursor.advance` asks for the next layer so many times, past the end if need be.  Where the cursor
is then can be said in closed form: at the position that is so many steps on, or at the end
(`Arena.advance_within`).  The statement about any number of steps is an induction over the
statement about one, with the position as what changes.

That it finds its way at the edges of the subtree, where it climbs from the last of some siblings,
is proved for walks.  Here the guarded step shows that a cursor never climbs from a layer without a
parent (`Arena.stepGuarded_within`), which a plain step would not show, as it ends there.
-/

set_option autoImplicit false

namespace MapLayers

open Guarded

/-- The cursor after the next layer has been asked for so many times. -/
def Cursor.advance (t : Arena) : Nat → Cursor → Cursor
  | 0, c => c
  | n + 1, c => advance t n (c.next t).2

/-- The next layer, and the walk that continues after it, guarded. -/
def Walk.stepGuarded (t : Arena) (w : Walk) : Guarded (Option (Nat × Walk)) :=
  match w.next with
  | none => .ok none
  | some k => do
    let next ← t.afterGuarded w.start k
    return some (k, ⟨w.start, next⟩)

/-- A layer and all below it are passed one after the other. -/
structure Arena.WalksSubtree (t : Arena) (k : Nat) (s : Layer) : Prop where
  /-- They stand in a row, as many as there are. -/
  row : ∀ j, j ∈ List.range' k s.count ↔ j = k ∨ t.Above k j
  /-- They are listed in order. -/
  descendants : t.descendants k = List.range' k s.count
  /-- After any number of steps a cursor gives the next of them, if any are left. -/
  next : ∀ n, (((Cursor.descendants k).advance t n).next t).1 = (List.range' k s.count)[n]?
  /-- Then it gives what is left, and ends. -/
  yields : ∀ n, ((Cursor.descendants k).advance t n).Yields t ((List.range' k s.count).drop n)
  /-- What is left can be listed. -/
  rest : ∀ n, ((Cursor.descendants k).advance t n).rest t = (List.range' k s.count).drop n
  /-- Each step follows links that lead to layers only. -/
  guarded : ∀ n, ∃ w, (Cursor.descendants k).advance t n = .subtree w .everything ∧
    w.stepGuarded t = .ok (w.step t)

/-- All subtrees of a tree are passed layer by layer. -/
structure Hierarchy.WalksSubtrees (h : Hierarchy) (l : Layer) : Prop where
  /-- There is a subtree at every position. -/
  subtree : ∀ k < h.size, ∃ s, l.preorder[k]? = some s
  /-- It is passed layer by layer. -/
  below : ∀ k s, l.preorder[k]? = some s → h.WalksSubtree k s
  /-- All layers are listed in order. -/
  all : h.all = List.range h.size
  /-- A cursor gives them all, and ends. -/
  yields : Cursor.all.Yields h.toArena (List.range h.size)

/-! ## Cursors and walks -/

namespace Cursor

variable {t : Arena} {c : Cursor} {ks : List Nat}

/-- With enough steps, all that a cursor yields is listed. -/
theorem Yields.take_eq (h : c.Yields t ks) : ∀ {n : Nat}, ks.length ≤ n → c.take t n = ks := by
  induction h with
  | done hnext _ =>
    intro n _
    cases n with
    | zero => rfl
    | succ n => rw [take, hnext]
  | step hnext _ ih =>
    intro n hn
    cases n with
    | zero => exact absurd hn (Nat.not_succ_le_zero _)
    | succ n =>
      rw [take, hnext]
      exact congrArg _ (ih (Nat.le_of_succ_le_succ hn))

/-- Where all layers are selected, a cursor goes on as its walk does. -/
theorem next_everything (ht : 0 < t.size) (w : Walk) : (subtree w .everything).next t
    = (w.step t).elim (none, subtree ⟨w.start, none⟩ .everything)
        fun x => (some x.1, subtree x.2 .everything) := by
  obtain ⟨m, hm⟩ := Nat.exists_eq_succ_of_ne_zero (Nat.ne_of_gt ht)
  rw [next, hm, seek]
  cases w.step t <;> rfl

end Cursor

namespace Arena

variable {l : Layer} {q : Place} {j : Nat}

/-! ## The layers below a place -/

/-- **The layers below a place stand after it**, one after the other. -/
theorem mem_row_iff (hq : q ∈ (Place.top l).all) : j ∈ List.range' q.position q.layer.count ↔
    j = q.position ∨ (ofLayer l).Above q.position j := by
  rw [← Place.positions_all, List.mem_map]
  refine ⟨?_, ?_⟩
  · rintro ⟨r, hr, rfl⟩
    refine Place.all_induction (motive := fun r => r.position = q.position ∨
      (ofLayer l).Above q.position r.position) q (Or.inl rfl) (fun r hr ih c hc => ?_) r hr
    have hparent : (ofLayer l).parent c.position = some r.position :=
      parent_eq_some_iff.mpr ⟨r, Place.mem_all_trans hq hr, rfl, c, hc, rfl⟩
    rcases ih with heq | habove
    · exact Or.inr (.parent (heq ▸ hparent))
    · exact Or.inr (.up hparent habove)
  · rintro (rfl | habove)
    · exact ⟨q, Place.mem_all_self q, rfl⟩
    · -- each step down stays below the place
      have hchild {p k : Nat} (hp : ∃ r ∈ q.all, r.position = p)
          (hparent : (ofLayer l).parent k = some p) : ∃ r ∈ q.all, r.position = k := by
        obtain ⟨r, hr, rfl⟩ := hp
        obtain ⟨r', hr', heq, c, hc, rfl⟩ := parent_eq_some_iff.mp hparent
        obtain rfl := Place.eq_of_position_eq hr' (Place.mem_all_trans hq hr) heq
        exact ⟨c, Place.mem_all_of_mem_children hr hc, rfl⟩
      induction habove with
      | parent hparent => exact hchild ⟨q, Place.mem_all_self q, rfl⟩ hparent
      | up hparent _ ih => exact hchild ih hparent

/-! ## One step

In terms of positions: a walk that has come to a position of the row goes on to the next one, and
has nothing left after the last. -/

/-- The walk below a place, when it has come to a position. -/
def walkWithin (q : Place) (j : Nat) : Walk :=
  ⟨q.position, upTo (q.position + q.layer.count) j⟩

/-- The cursor below a place, when it has come to a position. -/
def cursorWithin (q : Place) (j : Nat) : Cursor := .subtree (walkWithin q j) .everything

theorem walkWithin_of_lt (h : j < q.position + q.layer.count) :
    walkWithin q j = ⟨q.position, some j⟩ := by
  rw [walkWithin, upTo, if_pos h]

theorem walkWithin_of_le (h : q.position + q.layer.count ≤ j) :
    walkWithin q j = ⟨q.position, none⟩ := by
  rw [walkWithin, upTo, if_neg (Nat.not_lt.mpr h)]

section

variable (hq : q ∈ (Place.top l).all) (hj : q.position ≤ j)

include hq hj

/-- **A walk goes on to the next position**, and ends where the subtree does. -/
theorem step_within : (walkWithin q j).step (ofLayer l)
    = (upTo (q.position + q.layer.count) j).map fun j => (j, walkWithin q (j + 1)) := by
  rw [upTo]
  split
  · rename_i hlt
    obtain ⟨r, hr, rfl⟩ := Place.exists_of_position hj hlt
    rw [walkWithin_of_lt hlt, Walk.step]
    dsimp only
    rw [after_eq hq hr]
    rfl
  · rename_i hle
    rw [walkWithin_of_le (Nat.not_lt.mp hle)]
    rfl

theorem stepGuarded_within : (walkWithin q j).stepGuarded (ofLayer l)
    = .ok ((walkWithin q j).step (ofLayer l)) := by
  rcases Nat.lt_or_ge j (q.position + q.layer.count) with hlt | hle
  · obtain ⟨r, hr, rfl⟩ := Place.exists_of_position hj hlt
    rw [walkWithin_of_lt hlt, Walk.stepGuarded, Walk.step]
    dsimp only
    rw [afterGuarded_eq_ok hq hr]
    rfl
  · rw [walkWithin_of_le hle]
    rfl

/-- **A cursor goes on to the next position**, and stays at the end. -/
theorem next_within : (cursorWithin q j).next (ofLayer l)
    = (upTo (q.position + q.layer.count) j, cursorWithin q (j + 1)) := by
  have hsize : 0 < (ofLayer l).size := by
    rw [size_ofLayer]
    exact l.count_pos
  rw [cursorWithin, Cursor.next_everything hsize, step_within hq hj, upTo]
  split
  · rfl
  · rename_i hle
    rw [cursorWithin, walkWithin_of_le (Nat.le_succ_of_le (Nat.not_lt.mp hle))]
    rfl

end

/-! ## Any number of steps

The same for so many steps at once, and for all that are left. -/

/-- **A cursor that has been advanced is as far on.** -/
theorem advance_within (hq : q ∈ (Place.top l).all) : ∀ (n j : Nat), q.position ≤ j →
    (cursorWithin q j).advance (ofLayer l) n = cursorWithin q (j + n)
  | 0, _, _ => rfl
  | n + 1, j, hj => by
    rw [Cursor.advance, next_within hq hj, advance_within hq n (j + 1) (Nat.le_succ_of_le hj),
      Nat.add_right_comm, Nat.add_assoc]

/-- **A cursor yields what is left of the subtree.** -/
theorem yields_within (hq : q ∈ (Place.top l).all) : ∀ (n j : Nat), q.position ≤ j →
    q.position + q.layer.count - j = n →
      (cursorWithin q j).Yields (ofLayer l) (List.range' j n)
  | 0, j, hj, hn => by
    have hend := Nat.le_of_sub_eq_zero hn
    have hnext : (cursorWithin q j).next (ofLayer l) = (none, cursorWithin q j) := by
      rw [next_within hq hj, upTo, if_neg (Nat.not_lt.mpr hend), cursorWithin, cursorWithin,
        walkWithin_of_le hend, walkWithin_of_le (Nat.le_succ_of_le hend)]
    exact .done hnext hnext
  | n + 1, j, hj, hn => by
    refine .step ?_ (yields_within hq n (j + 1) (Nat.le_succ_of_le hj) (by omega))
    rw [next_within hq hj, upTo, if_pos (by omega)]

/-- The cursor that starts below a place, after any number of steps. -/
theorem advance_descendants (hq : q ∈ (Place.top l).all) (n : Nat) :
    (Cursor.descendants q.position).advance (ofLayer l) n = cursorWithin q (q.position + n) := by
  have hstart : Cursor.descendants q.position = cursorWithin q q.position := by
    rw [cursorWithin, walkWithin_of_lt (Nat.lt_add_of_pos_right q.layer.count_pos)]
    rfl
  rw [hstart, advance_within hq n _ (Nat.le_refl _)]

theorem getElem?_row (start count n : Nat) :
    (List.range' start count)[n]? = upTo (start + count) (start + n) := by
  rw [upTo]
  split
  · rw [List.getElem?_range' (by omega), Nat.one_mul]
  · exact List.getElem?_eq_none (by rw [List.length_range']; omega)

/-- **Walks pass a subtree** layer by layer, and end. -/
theorem walksSubtree (hq : q ∈ (Place.top l).all) :
    (ofLayer l).WalksSubtree q.position q.layer := by
  have hyields (n : Nat) :
      ((Cursor.descendants q.position).advance (ofLayer l) n).Yields (ofLayer l)
        ((List.range' q.position q.layer.count).drop n) := by
    rw [advance_descendants hq, List.drop_range', Nat.mul_one]
    exact yields_within hq _ _ (Nat.le_add_right _ _) (by omega)
  have hsize : q.layer.count ≤ (ofLayer l).size := by
    have hend := Place.end_le hq
    have hcount := size_ofLayer l
    simp only [Place.top] at hend
    omega
  exact {
    row := fun _ => mem_row_iff hq
    descendants := descendants_eq hq
    next := fun n => by
      rw [advance_descendants hq, next_within hq (Nat.le_add_right _ _), getElem?_row]
    yields := hyields
    rest := fun n => (hyields n).take_eq (by
      rw [List.length_drop, List.length_range']
      exact Nat.le_trans (Nat.sub_le _ _) hsize)
    guarded := fun n =>
      ⟨_, advance_descendants hq n, stepGuarded_within hq (Nat.le_add_right _ _)⟩ }

end Arena

namespace Hierarchy

/-- **Walks through a tree pass its layers in pre-order**, all of them or those of a subtree, and
end. -/
theorem walksSubtrees (l : Layer) (primary : Crs) : (ofLayer l primary).WalksSubtrees l where
  subtree k hk := by
    obtain ⟨q, hq, hpos⟩ := Arena.exists_place hk
    exact ⟨q.layer, Place.preorder_eq_some_iff.mpr ⟨q, hq, hpos, rfl⟩⟩
  below k s hs := by
    obtain ⟨q, hq, rfl, rfl⟩ := Place.preorder_eq_some_iff.mp hs
    exact Arena.walksSubtree hq
  all := Arena.all_eq_range_size l
  yields := by
    have h := (Arena.walksSubtree (Place.mem_all_self (Place.top l))).yields 0
    rw [List.drop_zero] at h
    have hsize : (ofLayer l primary).size = l.count := Arena.size_ofLayer l
    rw [hsize, List.range_eq_range']
    exact h

/-- The cursor below the water layers, once it has been advanced, and then at its end. -/
example : ((Cursor.descendants 4).advance (.ofLayer Samples.service) 1).rest
      (.ofLayer Samples.service) = [5, 6] ∧
    ((Cursor.descendants 4).advance (.ofLayer Samples.service) 3).rest
      (.ofLayer Samples.service) = [] := by
  decide +kernel

end Hierarchy

end MapLayers
