import MapLayers.Hierarchy.Boxes
import MapLayers.Hierarchy.Layout
import MapLayers.Hierarchy.Walk

/-!
# Hierarchies

A `Hierarchy` is a tree of layers with everything that is worked out from it: the layers by
position, the coordinate systems that are referenced, and the effective boxes of each layer in them.
It is worked out once, against one primary coordinate system, and never changes.

A hierarchy extends its arena, so whatever can be asked about the layers of an arena can be asked
about those of the hierarchy.  What it adds is boxes: the effective one of a layer
(`Hierarchy.effectiveBox`), and the one that it would have if it declared none and there were no
standard extents (`Hierarchy.inheritedBox`), which is what a declared box is compared with.
-/

set_option autoImplicit false

namespace MapLayers

/-- A tree of layers with its effective boxes. -/
structure Hierarchy extends Arena where
  /-- The coordinate system in which layers fall back to the standard extent. -/
  primary : Crs
  /-- The coordinate systems that have effective boxes, in order. -/
  referenced : List Crs
  /-- The effective boxes of each layer. -/
  boxes : Array BoxTable
deriving DecidableEq, BEq, Repr, Inhabited

namespace Hierarchy

/-- The hierarchy of the layers in an arena. -/
def ofArena (t : Arena) (primary : Crs) : Hierarchy :=
  ⟨t, primary, t.referenced primary, t.boxes primary⟩

/-- The hierarchy of a nested description. -/
def ofLayer (layer : Layer) (primary : Crs) : Hierarchy := ofArena (.ofLayer layer) primary

/-- The effective boxes of a layer. -/
def boxTable (h : Hierarchy) (k : Nat) : BoxTable := h.boxes.getD k []

/-- The effective box of a layer in a coordinate system. -/
def effectiveBox (h : Hierarchy) (k : Nat) (c : Crs) : Option EffectiveBox :=
  (h.boxTable k).lookup c

/-- The box that a layer would have in a coordinate system if it declared none and there were no
standard extents. -/
def inheritedBox (h : Hierarchy) (k : Nat) (c : Crs) : Option EffectiveBox :=
  MapLayers.inheritedBox h.boxes (h.parent k) c

end Hierarchy

end MapLayers
