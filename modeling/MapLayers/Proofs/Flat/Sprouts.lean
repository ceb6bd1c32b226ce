import MapLayers.Layer.Nested
import MapLayers.Proofs.Flat.Descent

/-!
# Sprouts

A *sprout* is a tree of positions.  It stands between a flat list and the layers that are made of
it: the list says for each position which ones are below it, and a sprout that follows this table
(`Sprout.Follows`) is the tree which hangs from one start.  A table can have cycles, a sprout
cannot, so once there is a sprout, inductions go along it and not along the steps of a loop.

If no position is listed twice, there is a sprout at every start that is not below itself
(`Sprout.exists_follows`).  It consists of all that is below the start
(`Sprout.mem_positionsAll_iff`), and of each position once (`Sprout.nodup_positions`).

The positions of a sprout can be listed in two orders.  `Sprout.positions` is pre-order, in which a
sweep visits them and layers are laid out; `Sprout.bottomUp` has each position after all below it,
which is the order in which frames are closed.  They are the same positions
(`Sprout.perm_bottomUp`).  `Sprout.layer` puts attributes at the positions and so makes layers of
them.
-/

set_option autoImplicit false

namespace MapLayers

/-- A tree of positions. -/
inductive Sprout where
  | node (position : Nat) (children : List Sprout)

namespace Sprout

/-- The position at the start of a sprout. -/
def position : Sprout → Nat
  | .node i _ => i

mutual

/-- The positions of a sprout, in pre-order. -/
def positions : Sprout → List Nat
  | .node i ts => i :: positionsAll ts

/-- The positions of some sprouts. -/
def positionsAll : List Sprout → List Nat
  | [] => []
  | t :: ts => t.positions ++ positionsAll ts

end

mutual

/-- The positions of a sprout, each after all below it. -/
def bottomUp : Sprout → List Nat
  | .node i ts => bottomUpAll ts ++ [i]

/-- The positions of some sprouts, each after all below it. -/
def bottomUpAll : List Sprout → List Nat
  | [] => []
  | t :: ts => t.bottomUp ++ bottomUpAll ts

end

mutual

/-- The layers with the given attributes at the positions of a sprout. -/
def layer (attributes : Nat → Attributes) : Sprout → Layer
  | .node i ts => .node (attributes i) (layers attributes ts)

/-- The layers at the positions of some sprouts. -/
def layers (attributes : Nat → Attributes) : List Sprout → List Layer
  | [] => []
  | t :: ts => t.layer attributes :: layers attributes ts

end

mutual

/-- The children of every position of a sprout are those listed for it, in order. -/
def Follows (under : Nat → List Nat) : Sprout → Prop
  | .node i ts => ts.map position = under i ∧ FollowAll under ts

/-- So for every position of some sprouts. -/
def FollowAll (under : Nat → List Nat) : List Sprout → Prop
  | [] => True
  | t :: ts => t.Follows under ∧ FollowAll under ts

end

variable {under : Nat → List Nat} {attributes : Nat → Attributes} {t : Sprout} {ts : List Sprout}
  {i j n : Nat}

theorem layers_eq_map : layers attributes ts = ts.map (layer attributes) := by
  induction ts with
  | nil => rfl
  | cons t ts ih => rw [layers, ih, List.map_cons]

theorem mem_positionsAll : i ∈ positionsAll ts ↔ ∃ t ∈ ts, i ∈ t.positions := by
  induction ts with
  | nil => simp [positionsAll]
  | cons t ts ih => simp [positionsAll, ih]

theorem position_mem_positions (t : Sprout) : t.position ∈ t.positions := by
  obtain ⟨i, ts⟩ := t
  rw [positions]
  exact List.mem_cons_self

mutual

/-- From the bottom up, the positions are the same. -/
theorem perm_bottomUp : ∀ t : Sprout, t.bottomUp.Perm t.positions
  | .node i ts => by
    rw [bottomUp, positions]
    exact ((perm_bottomUpAll ts).append_right [i]).trans List.perm_append_comm

theorem perm_bottomUpAll : ∀ ts : List Sprout, (bottomUpAll ts).Perm (positionsAll ts)
  | [] => .nil
  | t :: ts => by
    rw [bottomUpAll, positionsAll]
    exact (perm_bottomUp t).append (perm_bottomUpAll ts)

end

mutual

theorem count_layer : ∀ t : Sprout, (t.layer attributes).count = t.positions.length
  | .node i ts => by
    rw [layer, Layer.count, positions, List.length_cons, countAll_layers ts, Nat.add_comm]

theorem countAll_layers : ∀ ts : List Sprout,
    Layer.countAll (layers attributes ts) = (positionsAll ts).length
  | [] => rfl
  | t :: ts => by
    rw [layers, Layer.countAll, positionsAll, List.length_append, count_layer t, countAll_layers ts]

end

mutual

theorem layer_congr {attributes' : Nat → Attributes} : ∀ t : Sprout,
    (∀ i ∈ t.positions, attributes i = attributes' i) → t.layer attributes = t.layer attributes'
  | .node i ts, h => by
    rw [positions, List.forall_mem_cons] at h
    rw [layer, layer, h.1, layers_congr ts h.2]

theorem layers_congr {attributes' : Nat → Attributes} : ∀ ts : List Sprout,
    (∀ i ∈ positionsAll ts, attributes i = attributes' i) →
      layers attributes ts = layers attributes' ts
  | [], _ => rfl
  | t :: ts, h => by
    rw [positionsAll, List.forall_mem_append] at h
    rw [layers, layers, layer_congr t h.1, layers_congr ts h.2]

end

/-! ## A sprout is what is below its start -/

mutual

theorem below_of_mem : ∀ {t : Sprout}, t.Follows under → i ∈ t.positions →
    ∃ k, Below under t.position k i
  | .node j ts, h, hi => by
    rw [positions, List.mem_cons] at hi
    rcases hi with rfl | hi
    · exact ⟨0, Below.here⟩
    · obtain ⟨c, hc, k, hk⟩ := below_of_mem_all h.2 hi
      rw [h.1] at hc
      exact ⟨k + 1, Below.of_child hc hk⟩

theorem below_of_mem_all : ∀ {ts : List Sprout}, FollowAll under ts → i ∈ positionsAll ts →
    ∃ c ∈ ts.map position, ∃ k, Below under c k i
  | [], _, hi => by simp [positionsAll] at hi
  | t :: ts, h, hi => by
    rw [positionsAll, List.mem_append] at hi
    rcases hi with hi | hi
    · exact ⟨t.position, List.mem_cons_self, below_of_mem h.1 hi⟩
    · obtain ⟨c, hc, hk⟩ := below_of_mem_all h.2 hi
      exact ⟨c, List.mem_cons_of_mem _ hc, hk⟩

end

theorem mem_positionsAll_of_mem {c : Nat} (h : c ∈ ts.map position) : c ∈ positionsAll ts := by
  obtain ⟨t, ht, rfl⟩ := List.mem_map.mp h
  exact mem_positionsAll.mpr ⟨t, ht, position_mem_positions t⟩

mutual

theorem mem_positions_of_mem_under {c : Nat} : ∀ {t : Sprout}, t.Follows under →
    j ∈ t.positions → c ∈ under j → c ∈ t.positions
  | .node i ts, h, hj, hc => by
    rw [positions, List.mem_cons] at hj
    rw [positions]
    refine List.mem_cons_of_mem _ ?_
    rcases hj with rfl | hj
    · rw [← h.1] at hc
      exact mem_positionsAll_of_mem hc
    · exact mem_positionsAll_of_mem_under h.2 hj hc

theorem mem_positionsAll_of_mem_under {c : Nat} : ∀ {ts : List Sprout}, FollowAll under ts →
    j ∈ positionsAll ts → c ∈ under j → c ∈ positionsAll ts
  | [], _, hj, _ => by simp [positionsAll] at hj
  | t :: ts, h, hj, hc => by
    rw [positionsAll, List.mem_append] at hj ⊢
    exact hj.imp (fun hj => mem_positions_of_mem_under h.1 hj hc)
      (fun hj => mem_positionsAll_of_mem_under h.2 hj hc)

end

/-- **The positions of sprouts are those below their starts.** -/
theorem mem_positionsAll_iff (h : FollowAll under ts) :
    i ∈ positionsAll ts ↔ ∃ c ∈ ts.map position, ∃ k, Below under c k i := by
  refine ⟨below_of_mem_all h, ?_⟩
  rintro ⟨c, hc, k, hk⟩
  induction hk with
  | here => exact mem_positionsAll_of_mem hc
  | child _ hmem ih => exact mem_positionsAll_of_mem_under h ih hmem

/-! ## No position twice -/

mutual

/-- **No position is twice in a sprout** whose start is not on a cycle. -/
theorem nodup_positions (once : ListedOnce under) : ∀ {t : Sprout}, t.Follows under →
    Apart under [t.position] → t.positions.Nodup
  | .node i ts, h, hi => by
    have hchildren : Apart under (ts.map position) := by
      rw [h.1]
      exact hi.children once
    have hnd : (ts.map position).Nodup := by
      rw [h.1]
      exact once.nodup i
    rw [positions, List.nodup_cons]
    refine ⟨fun hmem => ?_, nodup_positionsAll once h.2 hchildren hnd⟩
    obtain ⟨c, hc, k, hk⟩ := below_of_mem_all h.2 hmem
    rw [h.1] at hc
    exact Apart.singleton_iff.mp hi k (Below.of_child hc hk)

theorem nodup_positionsAll (once : ListedOnce under) : ∀ {ts : List Sprout}, FollowAll under ts →
    Apart under (ts.map position) → (ts.map position).Nodup → (positionsAll ts).Nodup
  | [], _, _, _ => List.nodup_nil
  | t :: ts, h, hapart, hnd => by
    rw [List.map_cons, List.nodup_cons] at hnd
    have ht : t.position ∈ (t :: ts).map position := List.mem_cons_self
    have htail : Apart under (ts.map position) := fun a ha b hb =>
      hapart a (List.mem_cons_of_mem _ ha) b (List.mem_cons_of_mem _ hb)
    rw [positionsAll, List.nodup_append]
    refine ⟨nodup_positions once h.1 (hapart.of_mem ht),
      nodup_positionsAll once h.2 htail hnd.2, ?_⟩
    rintro i hi _ hi' rfl
    obtain ⟨k, hk⟩ := below_of_mem h.1 hi
    obtain ⟨c, hc, m, hm⟩ := below_of_mem_all h.2 hi'
    have heq := hapart.eq_of_below once ht (List.mem_cons_of_mem _ hc) hk hm
    exact hnd.1 (heq ▸ hc)

end

/-! ## There is one -/

theorem exists_followAll {is : List Nat}
    (h : ∀ i ∈ is, ∃ t : Sprout, t.position = i ∧ t.Follows under) :
    ∃ ts : List Sprout, ts.map position = is ∧ FollowAll under ts := by
  induction is with
  | nil => exact ⟨[], rfl, trivial⟩
  | cons i is ih =>
    rw [List.forall_mem_cons] at h
    obtain ⟨t, rfl, ht⟩ := h.1
    obtain ⟨ts, rfl, hts⟩ := ih h.2
    exact ⟨t :: ts, rfl, ht, hts⟩

theorem exists_follows_of_below (once : ListedOnce under) (hbound : ∀ j, n ≤ j → under j = [])
    (hi : Apart under [i]) : ∀ (d k j : Nat), Below under i k j → n ≤ k + d →
      ∃ t : Sprout, t.position = j ∧ t.Follows under := by
  intro d
  induction d with
  | zero =>
    intro k j hj hk
    have hnone : under j = [] := by
      rw [List.eq_nil_iff_forall_not_mem]
      intro c hc
      have hle := Below.le once hbound hi (hj.child hc)
      omega
    exact ⟨.node j [], rfl, hnone.symm, trivial⟩
  | succ d ih =>
    intro k j hj hk
    obtain ⟨ts, hts, hall⟩ := exists_followAll fun c (hc : c ∈ under j) =>
      ih (k + 1) c (hj.child hc) (by omega)
    exact ⟨.node j ts, rfl, hts, hall⟩

/-- **There is a sprout at every start that is not below itself.** -/
theorem exists_follows (once : ListedOnce under) (hbound : ∀ j, n ≤ j → under j = [])
    (hi : Apart under [i]) : ∃ t : Sprout, t.position = i ∧ t.Follows under :=
  exists_follows_of_below once hbound hi n 0 i Below.here (Nat.le_add_left n 0)

end Sprout

end MapLayers
