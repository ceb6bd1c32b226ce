import MapLayers.Layer.Nested

/-!
# Layers by position

An `Arena` holds the layers of a tree in pre-order: the top layer first, then each subtree below it,
left to right.  A layer is known by its position, and has links to its parent, its first child and
its next sibling.  So a parent comes before its children, and the first child of a layer comes
directly after it.

The functions here follow the links.  Those that climb to the top or run along siblings are bounded
by the number of layers, which is never reached, since parents come earlier and siblings later.  For
a position outside the arena they answer as for a layer without links and attributes; refusing such
a position is the business of `MapLayers.Hierarchy.Access`.

The role of a layer is not kept anywhere.  It shows in the links (`Node.role`): the layer without a
parent is the top, even when nothing is below it, and of the others those with children are groups.
-/

set_option autoImplicit false

namespace MapLayers

/-- The part that a layer plays in its tree. -/
inductive Role where
  /-- The one layer without a parent. -/
  | top
  /-- Any other layer that has children. -/
  | group
  /-- Any other layer that has none. -/
  | data
deriving DecidableEq, Repr, Inhabited

/-- All roles. -/
def Role.all : List Role := [.top, .group, .data]

/-- The role in words. -/
def Role.label : Role → String
  | .top => "top"
  | .group => "group"
  | .data => "data"

/-- A layer with its links to other layers. -/
structure Node where
  attributes : Attributes
  parent : Option Nat
  firstChild : Option Nat := none
  nextSibling : Option Nat := none
deriving DecidableEq, BEq, Repr, Inhabited

/-- The role of a layer shows in its links.  A single layer is the top layer, not a data layer. -/
def Node.role (n : Node) : Role :=
  if n.parent.isNone then .top else if n.firstChild.isSome then .group else .data

/-- The layers of a tree in pre-order. -/
structure Arena where
  nodes : Array Node
deriving DecidableEq, BEq, Repr, Inhabited

namespace Arena

/-- The number of layers. -/
def size (t : Arena) : Nat := t.nodes.size

/-- Whether there are no layers. -/
def isEmpty (t : Arena) : Bool := t.size == 0

/-- The position of the top layer. -/
def top : Nat := 0

/-! ## One layer -/

/-- The parent of a layer; the top layer has none. -/
def parent (t : Arena) (k : Nat) : Option Nat := t.nodes[k]?.bind (·.parent)

/-- The first child of a layer. -/
def firstChild (t : Arena) (k : Nat) : Option Nat := t.nodes[k]?.bind (·.firstChild)

/-- The next sibling of a layer. -/
def nextSibling (t : Arena) (k : Nat) : Option Nat := t.nodes[k]?.bind (·.nextSibling)

/-- What the description says about a layer. -/
def attributes (t : Arena) (k : Nat) : Attributes := (t.nodes[k]?.map (·.attributes)).getD {}

/-- The name of a layer. -/
def name (t : Arena) (k : Nat) : Option String := (t.attributes k).name

/-- The role of a layer. -/
def role (t : Arena) (k : Nat) : Role := (t.nodes[k]?.map Node.role).getD .top

/-- Whether a layer has no children. -/
def isLeaf (t : Arena) (k : Nat) : Bool := (t.firstChild k).isNone

/-- The first layer of the given name. -/
def findByName (t : Arena) (name : String) : Option Nat :=
  t.nodes.toList.findIdx? fun n => n.attributes.name == some name

/-! ## Children -/

/-- A layer and the siblings after it, at most so many. -/
def siblingsFrom (t : Arena) : Nat → Option Nat → List Nat
  | 0, _ => []
  | _ + 1, none => []
  | n + 1, some k => k :: siblingsFrom t n (t.nextSibling k)

/-- The children of a layer, in document order. -/
def children (t : Arena) (k : Nat) : List Nat := t.siblingsFrom t.size (t.firstChild k)

/-! ## Ancestors -/

/-- The number of steps to the top, at most the given number. -/
def climb (t : Arena) : Nat → Nat → Nat
  | 0, _ => 0
  | n + 1, k =>
    match t.parent k with
    | none => 0
    | some p => climb t n p + 1

/-- The number of layers above a layer. -/
def depth (t : Arena) (k : Nat) : Nat := t.climb t.size k

/-- Whether climbing from a layer, itself included, meets another within so many steps. -/
def meets (t : Arena) (goal : Nat) : Nat → Nat → Bool
  | 0, _ => false
  | n + 1, k =>
    if k = goal then true
    else
      match t.parent k with
      | none => false
      | some p => meets t goal n p

/-- The parent of a layer that lies below `root`, and `none` for one that does not. -/
def parentBelow (t : Arena) (k root : Nat) : Option Nat :=
  match t.parent k with
  | none => none
  | some p => if t.meets root t.size p then some p else none

end Arena

end MapLayers
