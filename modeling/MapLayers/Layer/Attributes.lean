import MapLayers.Geometry.Box
import MapLayers.Layer.Source
import MapLayers.Layer.Style

/-!
# The attributes of a layer

Everything that a description can say about one layer, apart from its place among the others.  What
is left unsaid stays apart from what is said to be empty, because a hidden layer is warned about
what it says in vain.

A layer is hidden only when it says so (`Attributes.isHidden`); without a word about it, it is
visible.  Styles and boxes may repeat a name or a coordinate system, and then it is the first one
that is meant (`Attributes.style?`, `Attributes.box?`).  That the others are mistakes is for the
check to say.
-/

set_option autoImplicit false

namespace MapLayers

/-- The authority that issued the identifier of a dataset. -/
structure Authority where
  name : String
  url : String
  /-- The identifier that the authority gave the dataset. -/
  datasetId : String
deriving DecidableEq, Repr, Inhabited

/-- What a description says about one layer. -/
structure Attributes where
  /-- The identifier of the layer. -/
  name : Option String := none
  /-- The title for readers. -/
  title : Option String := none
  /-- The description for readers. -/
  abstract : Option String := none
  /-- The search keywords. -/
  keywords : Option (List String) := none
  /-- The declared boxes, meant to be one per coordinate system. -/
  boxes : List DeclaredBox := []
  /-- Whether the layer is shown; a layer that does not say is shown. -/
  visible : Option Bool := none
  /-- The authority behind the dataset. -/
  authority : Option Authority := none
  /-- The identifier of the metadata record of the dataset. -/
  metadata : Option String := none
  /-- The least scale denominator at which the layer is drawn. -/
  minScale : Option Binary64 := none
  /-- The greatest scale denominator at which the layer is drawn. -/
  maxScale : Option Binary64 := none
  /-- The styles, in order. -/
  styles : List Style := []
  /-- The data that the layer draws. -/
  source : Option Source := none
deriving DecidableEq, BEq, Repr, Inhabited

namespace Attributes

/-- Whether the layer is shown. -/
def isVisible (a : Attributes) : Bool := a.visible.getD true

/-- Whether the layer says that it is hidden. -/
def isHidden (a : Attributes) : Bool := a.visible == some false

theorem isHidden_eq_not_isVisible (a : Attributes) : a.isHidden = !a.isVisible := by
  cases h : a.visible with
  | none => simp [isHidden, isVisible, h]
  | some b => cases b <;> simp [isHidden, isVisible, h]

/-- The first style of the given name. -/
def style? (a : Attributes) (name : String) : Option Style := a.styles.find? (·.name == name)

/-- The first box declared for a coordinate system. -/
def box? (a : Attributes) (c : Crs) : Option DeclaredBox := a.boxes.find? (·.crs == c)

/-- Whether some style comes with a legend picture. -/
def hasLegend (a : Attributes) : Bool := a.styles.any Style.hasLegend

end Attributes

end MapLayers
