import MapLayers.Hierarchy.Arena

/-!
# Effective boxes

The box that is used for a layer in a coordinate system is, in this order:

1. the first box that the layer declares for the system;
2. the effective box of its parent, unless that is a standard extent.  It is remembered which
   ancestor declared it;
3. in the primary system only, the standard extent;
4. none.

Boxes are worked out for every system that is referenced anywhere, in one pass over the arena.
Since a parent comes before its children, its boxes are known when theirs are worked out, so no
layer has to look further up than one level.

The third step is taken layer by layer.  A layer that neither declares nor inherits a box has the
standard extent also when some other layer of the tree, a sibling perhaps, declares one.
-/

set_option autoImplicit false

namespace MapLayers

/-- Where an effective box comes from. -/
inductive BoxOrigin where
  /-- The layer itself declares it. -/
  | declared
  /-- The given ancestor declares it. -/
  | inherited (ancestor : Nat)
  /-- It is the standard extent. -/
  | standard
deriving DecidableEq, Repr, Inhabited

/-- The box that is used for a layer in a coordinate system. -/
structure EffectiveBox where
  rect : Rect
  origin : BoxOrigin
deriving DecidableEq, BEq, Repr, Inhabited

/-- Whether the box is declared somewhere, as opposed to being a standard extent. -/
def EffectiveBox.isExplicit (b : EffectiveBox) : Bool :=
  match b.origin with
  | .standard => false
  | _ => true

/-- The effective boxes of a layer, in the order of the coordinate systems. -/
abbrev BoxTable := List (Crs × EffectiveBox)

/-- The box that the children of `parent` inherit from it. -/
def passedOn (parent : Nat) (b : EffectiveBox) : Option EffectiveBox :=
  match b.origin with
  | .declared => some ⟨b.rect, .inherited parent⟩
  | .inherited ancestor => some ⟨b.rect, .inherited ancestor⟩
  | .standard => none

/-- The box that a layer with the given parent inherits, from the boxes worked out so far. -/
def inheritedBox (boxes : Array BoxTable) (parent : Option Nat) (c : Crs) : Option EffectiveBox :=
  match parent with
  | none => none
  | some p => ((boxes.getD p []).lookup c).bind (passedOn p)

/-- The box that the attributes declare for a coordinate system. -/
def Attributes.declaredBox (a : Attributes) (c : Crs) : Option EffectiveBox :=
  (a.box? c).map fun b => ⟨b.rect, .declared⟩

/-- The standard extent, for the primary system only. -/
def standardBox (primary c : Crs) : Option EffectiveBox :=
  if c = primary then (standardExtent c).map fun r => ⟨r, .standard⟩ else none

namespace Node

/-- The effective box of a layer in a coordinate system, from the boxes worked out so far. -/
def effectiveBox (n : Node) (primary : Crs) (boxes : Array BoxTable) (c : Crs) :
    Option EffectiveBox :=
  (n.attributes.declaredBox c).or ((inheritedBox boxes n.parent c).or (standardBox primary c))

/-- The effective boxes of a layer in the given systems, from the boxes worked out so far. -/
def boxTable (n : Node) (primary : Crs) (referenced : List Crs) (boxes : Array BoxTable) :
    BoxTable :=
  referenced.filterMap fun c => (n.effectiveBox primary boxes c).map (c, ·)

end Node

namespace Arena

/-- The coordinate systems that some layer declares a box for, with the primary one, in order. -/
def referenced (t : Arena) (primary : Crs) : List Crs :=
  t.nodes.toList.foldl
    (fun cs n => n.attributes.boxes.foldl (fun cs b => Crs.insert b.crs cs) cs) [primary]

/-- The effective boxes of all layers in the given systems, layer by layer. -/
def boxesIn (t : Arena) (primary : Crs) (referenced : List Crs) : Array BoxTable :=
  t.nodes.foldl (fun boxes n => boxes.push (n.boxTable primary referenced boxes)) #[]

/-- The effective boxes of all layers in all referenced systems, layer by layer. -/
def boxes (t : Arena) (primary : Crs) : Array BoxTable := t.boxesIn primary (t.referenced primary)

end Arena

end MapLayers
