import MapLayers.Flat.Entry
import MapLayers.Layer.Nested
import MapLayers.Service.Settings

/-!
# Service descriptions

A description gives the settings, the layers in either form, and what to say about a top layer that
has to be made up because several entries of a flat list belong under none.

The two forms are kept apart in `LayerInput`, since they differ in what can go wrong.  A nested
layer describes a tree whatever it says; a flat list may fail to describe one.
-/

set_option autoImplicit false

namespace MapLayers

/-- The layers of a description, in either form. -/
inductive LayerInput where
  | flat (entries : List Entry)
  | nested (layer : Layer)
deriving Repr, Inhabited

/-- A complete description of a service. -/
structure Description where
  /-- The settings. -/
  settings : Settings := {}
  /-- The attributes of a top layer that has to be made up. -/
  top : Option Attributes := none
  /-- The layers. -/
  layers : LayerInput
deriving Repr, Inhabited

end MapLayers
