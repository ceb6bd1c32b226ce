import MapLayers.Hierarchy.Arena

/-!
# Walking a subtree

A `Walk` goes through a layer and all below it in pre-order.  It has no stack: it knows where it
started and which layer comes next, and finds the layer after that by the links.  After a layer with
children comes its first child; after any other, the next sibling of the nearest layer that has one,
going up but never beyond the start.

A walk is a value.  Stepping gives a new walk, and the old one can be continued independently.

`Arena.descendants` and `Arena.all` are lists of what such walks give, bounded by the number of
layers.  In the arena of a tree they are runs of consecutive positions, but nothing here makes use
of that: a walk goes where the links lead.
-/

set_option autoImplicit false

namespace MapLayers

namespace Arena

/-- The next sibling of a layer or of the nearest layer above it that has one, looking no further up
than just below `start`, in so many steps. -/
def nextAbove (t : Arena) (start : Nat) : Nat → Nat → Option Nat
  | 0, _ => none
  | n + 1, k =>
    if k = start then none
    else
      match t.nextSibling k with
      | some s => some s
      | none =>
        match t.parent k with
        | none => none
        | some p => nextAbove t start n p

/-- The layer after `k` in the subtree of `start`. -/
def after (t : Arena) (start k : Nat) : Option Nat :=
  match t.firstChild k with
  | some c => some c
  | none => t.nextAbove start t.size k

end Arena

/-- A walk through a subtree in pre-order. -/
structure Walk where
  /-- The layer whose subtree is walked. -/
  start : Nat
  /-- The layer that comes next. -/
  next : Option Nat
deriving DecidableEq, Repr, Inhabited

namespace Walk

/-- The walk through the subtree of a layer. -/
def below (k : Nat) : Walk := ⟨k, some k⟩

/-- The next layer, and the walk that continues after it. -/
def step (t : Arena) (w : Walk) : Option (Nat × Walk) :=
  match w.next with
  | none => none
  | some k => some (k, ⟨w.start, t.after w.start k⟩)

/-- The layers that are left, at most so many. -/
def take (t : Arena) : Nat → Walk → List Nat
  | 0, _ => []
  | n + 1, w =>
    match w.step t with
    | none => []
    | some (k, w) => k :: take t n w

/-- The layers that are left. -/
def rest (t : Arena) (w : Walk) : List Nat := w.take t t.size

end Walk

namespace Arena

/-- A layer and all below it, in pre-order. -/
def descendants (t : Arena) (k : Nat) : List Nat := (Walk.below k).rest t

/-- All layers, in pre-order. -/
def all (t : Arena) : List Nat := t.descendants top

end Arena

end MapLayers
