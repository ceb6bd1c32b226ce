import MapLayers.Views.Selection

/-!
# Cursors

A `Cursor` gives layers one at a time: those of a subtree in pre-order, all or only some of them, or
the children of a layer.  Like a walk it is a value, so an earlier one can be continued at any time.

A cursor through a subtree is a walk with a selection.  Asked for the next layer, it passes over
those that are not selected (`Cursor.seek`), with the number of layers for a bound.  A cursor at its
end stays there, and can be asked again.

`Cursor.rest` is the list of what a cursor still has to give.
-/

set_option autoImplicit false

namespace MapLayers

/-- Which layers of a subtree a cursor gives. -/
inductive Selection where
  | everything
  | dataLayers
  | layersWithLegend
deriving DecidableEq, Repr, Inhabited

/-- Whether a layer is among the selected ones. -/
def Selection.keeps (t : Arena) (k : Nat) : Selection → Bool
  | .everything => true
  | .dataLayers => t.role k == .data
  | .layersWithLegend => t.showsLegend k

/-- A position in a sequence of layers. -/
inductive Cursor where
  /-- In the selected layers of a subtree. -/
  | subtree (walk : Walk) (selection : Selection)
  /-- In a row of siblings. -/
  | siblings (next : Option Nat)
deriving DecidableEq, Repr, Inhabited

namespace Cursor

/-- All layers. -/
def all : Cursor := .subtree (.below Arena.top) .everything

/-- A layer and all below it. -/
def descendants (k : Nat) : Cursor := .subtree (.below k) .everything

/-- The children of a layer. -/
def children (t : Arena) (k : Nat) : Cursor := .siblings (t.firstChild k)

/-- The data layers. -/
def dataLayers : Cursor := .subtree (.below Arena.top) .dataLayers

/-- The visible layers with a legend picture. -/
def layersWithLegend : Cursor := .subtree (.below Arena.top) .layersWithLegend

/-- The walk at the first selected layer, among at most so many. -/
def seek (t : Arena) (selection : Selection) : Nat → Walk → Option (Nat × Walk)
  | 0, _ => none
  | n + 1, w =>
    match w.step t with
    | none => none
    | some (k, w) => if selection.keeps t k then some (k, w) else seek t selection n w

/-- The next layer, and the cursor after it.  A cursor at its end stays there. -/
def next (t : Arena) : Cursor → Option Nat × Cursor
  | .subtree w selection =>
    match seek t selection t.size w with
    | none => (none, .subtree ⟨w.start, none⟩ selection)
    | some (k, w) => (some k, .subtree w selection)
  | .siblings none => (none, .siblings none)
  | .siblings (some k) => (some k, .siblings (t.nextSibling k))

/-- The layers that are left, at most so many. -/
def take (t : Arena) : Nat → Cursor → List Nat
  | 0, _ => []
  | n + 1, c =>
    match c.next t with
    | (none, _) => []
    | (some k, c) => k :: take t n c

/-- The layers that are left. -/
def rest (t : Arena) (c : Cursor) : List Nat := c.take t t.size

/-- The cursor with nothing left. -/
def atEnd : Cursor → Cursor
  | .subtree w selection => .subtree ⟨w.start, none⟩ selection
  | .siblings _ => .siblings none

end Cursor

end MapLayers
