import MapLayers.Layer.Attributes

/-!
# Flat entries

The flat form of a description is a list of entries, each of which may name the layer that it
belongs under.  The attributes are those of a nested layer; what a nested layer says by where it
stands, an entry says by the name of its parent.

An entry without such a name is at the top.  Whether the name leads anywhere is not to be seen from
one entry, and is asked when the list is nested.
-/

set_option autoImplicit false

namespace MapLayers

/-- An entry of a flat description. -/
structure Entry where
  /-- What the description says about the layer. -/
  attributes : Attributes := {}
  /-- The name of the layer that this one belongs under. -/
  parent : Option String := none
deriving DecidableEq, BEq, Repr, Inhabited

end MapLayers
