import MapLayers.Layer.Draft
import MapLayers.Service.Description

/-!
# Sample services

A topographic service in both forms, which is also what the program evaluates when it is given
nothing, and two small trees: one in which style names collide, and one with nested groups to route.

The topographic service has the groups *roads* and *water* and the data layer *elevation* below a
top layer without a name.  With default settings it is accepted, with one warning: the title of the
style of *archive*, which is hidden, is published by nobody.

The flat form leaves the top layer out, since three entries without a parent ask for one to be made
up, and gives its attributes beside the list.  Nested, it is the same tree.  General theorems are
tried out on these trees where they need something to hold of.
-/

set_option autoImplicit false

namespace MapLayers

namespace Samples

open Layer (described named unnamed)

/-! ## A topographic service -/

/-- The top layer, which has no name. -/
def top : Layer :=
  (unnamed.describe "Topography").withBox ⟨"EPSG:4326"⟩ (.ofQuotients 10 32 507 73 536)

/-- The group of roads. -/
def roads : Layer := ((described "roads").withStyle "roads").withLegend "legend/roads.png"

/-- Highways, in a database. -/
def highways : Layer :=
  ((described "highways").withStyle "highways" (some "highways.style")).fromDatabase "highways"
    ["id", "number", "lanes"]

/-- Paths, in a file. -/
def paths : Layer :=
  (((described "paths").withStyle "paths" (some "paths.style")).withLegend
    "legend/paths.png").fromFile "data/paths.gpkg" "paths" ["id", "surface"]

/-- The group of waters. -/
def water : Layer := (described "water").withStyle "water"

/-- Rivers, in a file. -/
def rivers : Layer :=
  ((described "rivers").withStyle "rivers" (some "rivers.style")).fromFile "data/water.gpkg"
    "rivers" ["id", "name"]

/-- Waters of the past, which are hidden. -/
def archive : Layer :=
  (((named "archive").hidden).withStyle "archive" (some "archive.style")).fromDatabase
    "water_archive" ["id"]

/-- The heights, as a raster image with a box of its own. -/
def elevation : Layer :=
  (((described "elevation").withStyle "elevation" (some "elevation.style")).fromRaster
    "data/elevation.tif").withBox ⟨"EPSG:3857"⟩ (.ofQuotients 1 360000 6580000 810000 7080000)

/-- The attributes of the top layer of the service. -/
def serviceTop : Attributes := top.attributes

/-- The service in the nested form. -/
def service : Layer :=
  ((top.withChild ((roads.withChild highways).withChild paths)).withChild
    ((water.withChild rivers).withChild archive)).withChild elevation

/-- The service in the flat form, without its top layer. -/
def serviceEntries : List Entry :=
  [.ofLayer none roads, .ofLayer (some "roads") highways, .ofLayer (some "roads") paths,
    .ofLayer none water, .ofLayer (some "water") rivers, .ofLayer (some "water") archive,
    .ofLayer none elevation]

/-- The complete description of the service, in the flat form. -/
def serviceDescription : Description where
  top := some serviceTop
  layers := .flat serviceEntries

/-! ## Small trees -/

/-- Three layers in a chain, each of which shares a style name with the one above it. -/
def collisions : Layer :=
  (((described "P").withStyle "s1").withStyle "s2").withChild
    ((((described "Q").withStyle "s2").withStyle "s3").withChild
      (((described "R").withStyle "s3" (some "r.style")).fromDatabase "r" ["id"]))

/-- A data layer without styles. -/
def plainData (name : String) : Layer := (described name).fromDatabase name ["id"]

/-- A group with two data layers and a group with another one. -/
def routing : Layer :=
  (described "top").withChild
    ((((described "G").withChild (plainData "D1")).withChild (plainData "D2")).withChild
      ((described "G2").withChild (plainData "D3")))

end Samples

end MapLayers
