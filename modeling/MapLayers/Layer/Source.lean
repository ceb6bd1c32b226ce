/-!
# Data sources

A data layer draws the features of a table, kept in a file or in a database, or the pixels of a
raster image.  A table lists the columns that are shown for a feature; a raster has none.

The rules ask a source for two things only, its columns and whether it is a raster
(`Source.columns`, `Source.isRaster`), and outlines ask for a label (`Source.label`), which is the
kind of the source with the name of the table or the key of the image.  Everything else is there to
be kept.
-/

set_option autoImplicit false

namespace MapLayers

/-- A column of a table. -/
structure Column where
  /-- The name in the table. -/
  name : String
  /-- The name that it is published under, when another. -/
  publishedAs : Option String := none
deriving DecidableEq, Repr, Inhabited

/-- The name that a column is published under. -/
def Column.publishedName (c : Column) : String := c.publishedAs.getD c.name

/-- A table of features. -/
structure Table where
  /-- The name of the table. -/
  name : String
  /-- The kind of geometry that its features have. -/
  geometry : String
  /-- The columns shown for a feature. -/
  columns : List Column := []
deriving DecidableEq, Repr, Inhabited

/-- A raster image. -/
structure Raster where
  /-- The key under which the image is stored. -/
  blobKey : String := ""
  /-- The resampling method. -/
  resample : Option String := none
  /-- The colour that counts as transparent. -/
  offsite : Option String := none
  /-- Whether feature information reports the class of a pixel. -/
  reportsClass : Bool := false
deriving DecidableEq, Repr, Inhabited

/-- Where a data layer gets what it draws. -/
inductive Source where
  /-- A table in a file that is stored under a key. -/
  | file (blobKey : String) (table : Table)
  /-- A table in a database. -/
  | database (table : Table)
  /-- A raster image. -/
  | raster (image : Raster)
deriving DecidableEq, Repr, Inhabited

namespace Source

/-- The table of a vector source. -/
def table? : Source → Option Table
  | .file _ t => some t
  | .database t => some t
  | .raster _ => none

/-- The columns shown for a feature; none for a raster. -/
def columns (s : Source) : List Column := (s.table?.map Table.columns).getD []

/-- Whether the source is a raster image. -/
def isRaster : Source → Bool
  | .raster _ => true
  | _ => false

/-- The kind of source with the table or key that tells it apart. -/
def label : Source → String
  | .file _ t => "gpkg:" ++ t.name
  | .database t => "postgis:" ++ t.name
  | .raster r => "tif:" ++ r.blobKey

end Source

end MapLayers
