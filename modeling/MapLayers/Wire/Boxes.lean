import MapLayers.Hierarchy.Boxes
import MapLayers.Wire.Attributes

/-!
# Effective boxes as JSON

A box table is an object with the coordinate systems as keys.  An inherited box tells the ancestor
that declares it.

These are results and are written only; nothing reads them.  A rectangle is an array of its four
edges here, while the rectangle of a description is an object with the edges by name.
-/

set_option autoImplicit false

namespace MapLayers

/-- The origin of a box as JSON. -/
def BoxOrigin.toJson : BoxOrigin → Json
  | .declared => .text "declared"
  | .inherited ancestor => .record [("inherited", .nat ancestor)]
  | .standard => .text "default"

/-- An effective box as JSON, its rectangle as an array of four edges. -/
def EffectiveBox.toJson (b : EffectiveBox) : Json :=
  .record
    [("rect", .array [.real b.rect.minX, .real b.rect.minY, .real b.rect.maxX, .real b.rect.maxY]),
      ("source", b.origin.toJson)]

/-- A box table as JSON. -/
def BoxTable.toJson (t : BoxTable) : Json := .record (t.map fun (c, b) => (c.id, b.toJson))

end MapLayers
