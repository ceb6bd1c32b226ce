/-!
# Styles

A style is one way of drawing a layer.  Its name is meant to be unique within its layer, though
nothing here enforces that.  A *visualization* refers to the drawing instructions; a *legend* is a
picture that is supplied ready made.

Title and description are for readers, and of use only where the layer is visible.  A legend without
which a picture would have to be drawn is looked for style by style (`Style.hasLegend`).
-/

set_option autoImplicit false

namespace MapLayers

/-- A ready-made legend picture. -/
structure Legend where
  /-- The width in pixels. -/
  width : UInt32
  /-- The height in pixels. -/
  height : UInt32
  /-- The media type of the picture. -/
  format : String
  /-- The key under which the picture is stored. -/
  blobKey : String
deriving DecidableEq, Repr, Inhabited

/-- One way of drawing a layer. -/
structure Style where
  /-- The name of the style. -/
  name : String := ""
  /-- The title for readers. -/
  title : Option String := none
  /-- The description for readers. -/
  abstract : Option String := none
  /-- The reference to the drawing instructions. -/
  visualization : Option String := none
  /-- The ready-made legend. -/
  legend : Option Legend := none
deriving DecidableEq, Repr, Inhabited

/-- Whether the style comes with a legend picture. -/
def Style.hasLegend (s : Style) : Bool := s.legend.isSome

end MapLayers
