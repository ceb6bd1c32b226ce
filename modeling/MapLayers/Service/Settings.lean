import MapLayers.Geometry.Crs

/-!
# Settings of a service

What a service can publish depends on its kind, and some rules can be switched.  A parent and a
child that share a style name are either an error or, when a proxy replaces a group by its data
layers, a reason to clean up legend references; never both.

* The kind says whether styles and rasters can be published (`ServiceKind.publishesStyles`,
  `ServiceKind.publishesRasters`).
* The primary system is the one in which every layer has to have a box.
* Drawing instructions that are supplied ready made leave no room for those of styles.
* Two switches together decide about shared style names (`Settings.forbidsSharedStyles`,
  `Settings.cleansSharedStyles`).
-/

set_option autoImplicit false

namespace MapLayers

/-- What a service can publish. -/
inductive ServiceKind where
  /-- Features alone, without styles. -/
  | vectorOnly
  /-- Styled pictures of features and rasters. -/
  | rasterCapable
deriving DecidableEq, Repr, Inhabited

namespace ServiceKind

/-- The kind in words. -/
def label : ServiceKind → String
  | .vectorOnly => "vector-only"
  | .rasterCapable => "raster-capable"

/-- Whether raster sources can be published. -/
def publishesRasters : ServiceKind → Bool
  | .vectorOnly => false
  | .rasterCapable => true

/-- Whether layers can have styles. -/
def publishesStyles : ServiceKind → Bool
  | .vectorOnly => false
  | .rasterCapable => true

end ServiceKind

/-- The settings that apply to a whole service. -/
structure Settings where
  /-- The coordinate system in which every layer needs a box. -/
  primary : Crs := .standard
  /-- Whether the drawing instructions are supplied ready made, so that no style refers to any. -/
  staticDrawing : Bool := false
  /-- Whether a proxy replaces a group by its data layers. -/
  rewritesGroups : Bool := false
  /-- Whether a child may not use a style name of its parent. -/
  comparesStyles : Bool := true
  /-- What the service can publish. -/
  kind : ServiceKind := .rasterCapable
deriving DecidableEq, Repr, Inhabited

namespace Settings

/-- Whether a style name shared with the parent is an error. -/
def forbidsSharedStyles (s : Settings) : Bool := s.comparesStyles && !s.rewritesGroups

/-- Whether a style name shared with the parent calls for cleaning up. -/
def cleansSharedStyles (s : Settings) : Bool := s.comparesStyles && s.rewritesGroups

end Settings

end MapLayers
