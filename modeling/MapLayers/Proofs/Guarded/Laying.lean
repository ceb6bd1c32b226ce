import MapLayers.Proofs.Guarded.Nesting
import MapLayers.Proofs.Layout.Encoding

/-!
# Laying out, guarded

Placing a layer reads and writes at the position of its parent and at that of the sibling before it.
Both have been placed before, but this is not to be seen from the place where they are read: a
parent comes from the stack of the loop, and a sibling from the side table that has the last child
of each layer.

What carries the run is therefore an invariant of the loop, `Layout.Closed`: the side table has an
entry for every layer that is placed, and refers to such layers only.  It holds of nothing
(`Layout.closed_empty`), and linking and placing keep it (`Layout.Closed.link`,
`Layout.Closed.place`), so a layer can always be placed below one that has been
(`Layout.placeGuarded_eq_ok`).

There is a word for the new position as long as there are fewer than `2 ^ 32` layers, and the bound
of the loop is the number of layers that it has to place.  So laying out a tree does not fail
(`Layout.fillGuarded_eq_ok`, `Arena.ofLayerGuarded_eq_ok`).
-/

set_option autoImplicit false

namespace MapLayers

open Guarded

namespace Layout

/-- Link a layer that has just been placed from its parent or its previous sibling. -/
def linkGuarded (position parent : Nat) (l : Layout) : Guarded Layout := do
  match ← read l.lastChild parent with
  | none =>
    let nodes ← Guarded.modify l.nodes parent fun n => { n with firstChild := some position }
    return ⟨nodes, ← write l.lastChild parent (some position)⟩
  | some previous =>
    let nodes ← Guarded.modify l.nodes previous fun n => { n with nextSibling := some position }
    return ⟨nodes, ← write l.lastChild parent (some position)⟩

/-- Give a layer the next position, when there is a word for it and for the number of layers. -/
def placeGuarded (attributes : Attributes) (parent : Option Nat) (l : Layout) : Guarded Layout :=
  if l.nodes.size + 1 < 2 ^ 32 then
    let placed : Layout := ⟨l.nodes.push { attributes, parent }, l.lastChild.push none⟩
    match parent with
    | none => .ok placed
    | some p => placed.linkGuarded l.nodes.size p
  else .error (.noWord l.nodes.size)

/-- Place the layers on a stack, and all below them, at most so many. -/
def fillGuarded : Nat → List (Layer × Option Nat) → Layout → Guarded Layout
  | _, [], l => .ok l
  | 0, _ :: _, _ => .error .unfinished
  | n + 1, (layer, parent) :: stack, l => do
    let placed ← l.placeGuarded layer.attributes parent
    fillGuarded n (layer.children.map (·, some l.nodes.size) ++ stack) placed

/-- The side table has an entry for every layer that is placed, and refers to such layers only. -/
structure Closed (l : Layout) : Prop where
  size : l.lastChild.size = l.nodes.size
  lastChild : ∀ p c : Nat, l.lastChild[p]? = some (some c) → c < l.nodes.size

variable {l : Layout} {attributes : Attributes} {parent : Option Nat} {position p : Nat}

theorem closed_empty : Layout.empty.Closed where
  size := rfl
  lastChild p c h := by simp [empty] at h

theorem Closed.push (h : l.Closed) (n : Node) :
    (⟨l.nodes.push n, l.lastChild.push none⟩ : Layout).Closed where
  size := by rw [Array.size_push, Array.size_push, h.size]
  lastChild p c hc := by
    rw [Array.size_push]
    rw [Array.getElem?_push] at hc
    split at hc
    · cases Option.some.inj hc
    · exact Nat.lt_succ_of_lt (h.lastChild p c hc)

/-- Linking reads and writes at positions that are taken. -/
theorem linkGuarded_eq_ok (h : l.Closed) (hp : p < l.nodes.size) :
    l.linkGuarded position p = .ok (l.link position p) := by
  have hlast : p < l.lastChild.size := h.size ▸ hp
  rw [linkGuarded, read_of_lt hlast none, ok_bind, link]
  cases hprevious : l.lastChild.getD p none with
  | none =>
    dsimp only
    rw [modify_of_lt hp, ok_bind, write_of_lt hlast]
    rfl
  | some previous =>
    have hlt : previous < l.nodes.size := by
      rw [Array.getD_eq_getD_getElem?, Array.getElem?_eq_getElem hlast,
        Option.getD_some] at hprevious
      exact h.lastChild p previous (by rw [Array.getElem?_eq_getElem hlast, hprevious])
    dsimp only
    rw [modify_of_lt hlt, ok_bind, write_of_lt hlast]
    rfl

theorem Closed.link (h : l.Closed) (hposition : position < l.nodes.size) :
    (l.link position p).Closed := by
  have hlast : ∀ q c : Nat, (l.lastChild.setIfInBounds p (some position))[q]? = some (some c) →
      c < l.nodes.size := by
    intro q c hc
    rw [Array.getElem?_setIfInBounds] at hc
    split at hc
    · split at hc
      · cases hc
        exact hposition
      · cases hc
    · exact h.lastChild q c hc
  rw [Layout.link]
  split
  · exact ⟨by simp [h.size], fun q c hc => by simpa using hlast q c hc⟩
  · exact ⟨by simp [h.size], fun q c hc => by simpa using hlast q c hc⟩

/-- **A layer can be placed** below one that has been placed. -/
theorem placeGuarded_eq_ok (h : l.Closed) (hparent : ∀ p, parent = some p → p < l.nodes.size)
    (hword : l.nodes.size + 1 < 2 ^ 32) :
    l.placeGuarded attributes parent = .ok (l.place attributes parent) := by
  rw [placeGuarded, if_pos hword]
  cases parent with
  | none => rfl
  | some p => exact linkGuarded_eq_ok (h.push _) (by simpa using Nat.lt_succ_of_lt (hparent p rfl))

theorem Closed.place (h : l.Closed) : (l.place attributes parent).Closed := by
  cases parent with
  | none => exact h.push _
  | some p => exact (h.push _).link (by simp)

/-- **A tree can be laid out** where there are words for all positions. -/
theorem fillGuarded_eq_ok (n : Nat) (stack : List (Layer × Option Nat)) (l : Layout)
    (h : l.Closed) (hstack : ∀ e ∈ stack, ∀ p, e.2 = some p → p < l.nodes.size)
    (hbound : Layer.countAll (waiting stack) ≤ n)
    (hword : l.nodes.size + Layer.countAll (waiting stack) < 2 ^ 32) :
    fillGuarded n stack l = .ok (fill n stack l) := by
  induction n generalizing stack l with
  | zero =>
    cases stack with
    | nil => rfl
    | cons top rest =>
      obtain ⟨⟨a, cs⟩, parent⟩ := top
      rw [countAll_waiting_cons] at hbound
      omega
  | succ n ih =>
    cases stack with
    | nil => rfl
    | cons top rest =>
      obtain ⟨⟨a, cs⟩, parent⟩ := top
      rw [countAll_waiting_cons] at hbound hword
      rw [List.forall_mem_cons] at hstack
      rw [fillGuarded, fill, Layer.attributes, Layer.children,
        placeGuarded_eq_ok h hstack.1 (by omega), ok_bind]
      refine ih _ _ h.place ?_ ?_ ?_
      · intro e he p hp
        rw [size_nodes_place]
        rcases List.mem_append.mp he with he | he
        · obtain ⟨c, -, rfl⟩ := List.mem_map.mp he
          cases hp
          exact Nat.lt_succ_self _
        · exact Nat.lt_succ_of_lt (hstack.2 e he p hp)
      · rw [countAll_waiting_children]
        omega
      · rw [countAll_waiting_children, size_nodes_place]
        omega

end Layout

/-- The layers of a nested description in pre-order. -/
def Arena.ofLayerGuarded (layer : Layer) : Guarded Arena :=
  return ⟨(← Layout.fillGuarded layer.count [(layer, none)] Layout.empty).nodes⟩

theorem Arena.ofLayerGuarded_eq_ok {layer : Layer} (h : layer.count < 2 ^ 32) :
    Arena.ofLayerGuarded layer = .ok (Arena.ofLayer layer) := by
  have hcount : Layer.countAll (Layout.waiting [(layer, none)]) = layer.count := by
    simp [Layout.waiting, Layer.countAll]
  have hfill := Layout.fillGuarded_eq_ok layer.count [(layer, none)] Layout.empty
    Layout.closed_empty (by simp) (Nat.le_of_eq hcount)
    (by rw [hcount]; simpa [Layout.empty] using h)
  rw [ofLayerGuarded, hfill]
  rfl

end MapLayers
