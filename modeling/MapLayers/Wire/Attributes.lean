import MapLayers.Json.Fields
import MapLayers.Layer.Attributes
import MapLayers.Number.Shortest

/-!
# Attributes as JSON

For each record: its keys in the order in which they are written, how it is written, and how it is
read.  Absent optional values are left out, and so are empty lists of boxes and styles; an empty
list of keywords is not, since it is different from none.

A source is an object with one member, whose key tells the kind of source (`Source.kindKey`).
Attributes also come as members of larger records, so they are written as members first
(`Attributes.toFields`), and read from whatever members they are found among
(`Attributes.ofFields`).

Readers are strict where a value is of the wrong kind and lenient where there is more than they
know: an unknown key is passed over.
-/

set_option autoImplicit false

namespace MapLayers

open Json (asText asBool asReal asUInt32 asList text)

/-! ## Coordinate systems and boxes -/

namespace Crs

/-- Write a coordinate system. -/
def toJson (c : Crs) : Json := text c.id

/-- Read a coordinate system. -/
def ofJson (j : Json) : Option Crs := (asText j).map Crs.mk

end Crs

namespace Rect

/-- The keys of a rectangle. -/
def keys : List String := ["minx", "miny", "maxx", "maxy"]

/-- Write a rectangle. -/
def toJson (r : Rect) : Json :=
  .record [("minx", .real r.minX), ("miny", .real r.minY), ("maxx", .real r.maxX),
    ("maxy", .real r.maxY)]

/-- Read a rectangle. -/
def ofJson (j : Json) : Option Rect := do
  let r ← Json.fields keys j
  return {
    minX := ← r.required "minx" asReal
    minY := ← r.required "miny" asReal
    maxX := ← r.required "maxx" asReal
    maxY := ← r.required "maxy" asReal }

end Rect

namespace DeclaredBox

/-- The keys of a declared box. -/
def keys : List String := ["crs", "bbox"]

/-- Write a declared box. -/
def toJson (b : DeclaredBox) : Json := .record [("crs", b.crs.toJson), ("bbox", b.rect.toJson)]

/-- Read a declared box. -/
def ofJson (j : Json) : Option DeclaredBox := do
  let r ← Json.fields keys j
  return {
    crs := ← r.required "crs" Crs.ofJson
    rect := ← r.required "bbox" Rect.ofJson }

end DeclaredBox

/-! ## Styles -/

namespace Legend

/-- The keys of a legend. -/
def keys : List String := ["width", "height", "format", "blobKey"]

/-- Write a legend. -/
def toJson (l : Legend) : Json :=
  .record [("width", .nat l.width.toNat), ("height", .nat l.height.toNat),
    ("format", text l.format), ("blobKey", text l.blobKey)]

/-- Read a legend. -/
def ofJson (j : Json) : Option Legend := do
  let r ← Json.fields keys j
  return {
    width := ← r.required "width" asUInt32
    height := ← r.required "height" asUInt32
    format := ← r.required "format" asText
    blobKey := ← r.required "blobKey" asText }

end Legend

namespace Style

/-- The keys of a style. -/
def keys : List String := ["name", "title", "abstract", "visualization", "legend"]

/-- Write a style. -/
def toJson (s : Style) : Json :=
  .record <| [("name", text s.name)]
    ++ Fields.ofOption "title" text s.title
    ++ Fields.ofOption "abstract" text s.abstract
    ++ Fields.ofOption "visualization" text s.visualization
    ++ Fields.ofOption "legend" Legend.toJson s.legend

/-- Read a style. -/
def ofJson (j : Json) : Option Style := do
  let r ← Json.fields keys j
  return {
    name := ← r.withDefault "name" "" asText
    title := ← r.optional "title" asText
    abstract := ← r.optional "abstract" asText
    visualization := ← r.optional "visualization" asText
    legend := ← r.optional "legend" Legend.ofJson }

end Style

/-! ## Sources -/

namespace Column

/-- The keys of a column. -/
def keys : List String := ["name", "alias"]

/-- Write a column. -/
def toJson (c : Column) : Json :=
  .record <| [("name", text c.name)] ++ Fields.ofOption "alias" text c.publishedAs

/-- Read a column. -/
def ofJson (j : Json) : Option Column := do
  let r ← Json.fields keys j
  return {
    name := ← r.required "name" asText
    publishedAs := ← r.optional "alias" asText }

end Column

namespace Table

/-- The keys of a table in a database; a table in a file has the key of the file before them. -/
def keys : List String := ["tableName", "geometryType", "columns"]

/-- The members of a table. -/
def toFields (t : Table) : Fields :=
  [("tableName", text t.name), ("geometryType", text t.geometry),
    ("columns", .array (t.columns.map Column.toJson))]

/-- The table that the members of a record describe. -/
def ofFields (r : Fields) : Option Table := do
  return {
    name := ← r.required "tableName" asText
    geometry := ← r.required "geometryType" asText
    columns := ← r.withDefault "columns" [] (asList Column.ofJson) }

end Table

namespace Raster

/-- The keys of a raster image. -/
def keys : List String := ["blobKey", "resample", "offsite", "getFeatureInfoIncludesClass"]

/-- Write a raster image. -/
def toJson (r : Raster) : Json :=
  .record <| [("blobKey", text r.blobKey)]
    ++ Fields.ofOption "resample" text r.resample
    ++ Fields.ofOption "offsite" text r.offsite
    ++ [("getFeatureInfoIncludesClass", .bool r.reportsClass)]

/-- Read a raster image. -/
def ofJson (j : Json) : Option Raster := do
  let r ← Json.fields keys j
  return {
    blobKey := ← r.withDefault "blobKey" "" asText
    resample := ← r.optional "resample" asText
    offsite := ← r.optional "offsite" asText
    reportsClass := ← r.withDefault "getFeatureInfoIncludesClass" false asBool }

end Raster

namespace Source

/-- The keys of a table in a file. -/
def fileKeys : List String := "blobKey" :: Table.keys

/-- The key that tells the kind of source. -/
def kindKey : Source → String
  | .file _ _ => "gpkg"
  | .database _ => "postgis"
  | .raster _ => "tif"

/-- The record of the source itself. -/
def payload : Source → Json
  | .file blobKey t => .record (("blobKey", text blobKey) :: t.toFields)
  | .database t => .record t.toFields
  | .raster r => r.toJson

/-- Write a source. -/
def toJson (s : Source) : Json := .record [(s.kindKey, s.payload)]

/-- Read a table in a file. -/
def fileOfJson (j : Json) : Option Source := do
  let r ← Json.fields fileKeys j
  return .file (← r.required "blobKey" asText) (← Table.ofFields r)

/-- Read a table in a database. -/
def databaseOfJson (j : Json) : Option Source := do
  return .database (← Table.ofFields (← Json.fields Table.keys j))

/-- Read a raster image. -/
def rasterOfJson (j : Json) : Option Source := (Raster.ofJson j).map .raster

/-- Read a source. -/
def ofJson : Json → Option Source
  | .object [(some "gpkg", value)] => fileOfJson value
  | .object [(some "postgis", value)] => databaseOfJson value
  | .object [(some "tif", value)] => rasterOfJson value
  | _ => none

end Source

/-! ## Attributes -/

namespace Authority

/-- The keys of an authority. -/
def keys : List String := ["name", "url", "spatialDatasetIdentifier"]

/-- Write an authority. -/
def toJson (a : Authority) : Json :=
  .record [("name", text a.name), ("url", text a.url),
    ("spatialDatasetIdentifier", text a.datasetId)]

/-- Read an authority. -/
def ofJson (j : Json) : Option Authority := do
  let r ← Json.fields keys j
  return {
    name := ← r.required "name" asText
    url := ← r.required "url" asText
    datasetId := ← r.required "spatialDatasetIdentifier" asText }

end Authority

/-- A reference to a metadata record is a record of its own, with the identifier alone. -/
def metadataToJson (identifier : String) : Json :=
  .record [("metadataIdentifier", text identifier)]

/-- Read a reference to a metadata record. -/
def metadataOfJson (j : Json) : Option String := do
  (← Json.fields ["metadataIdentifier"] j).required "metadataIdentifier" asText

namespace Attributes

/-- The keys of the attributes. -/
def keys : List String :=
  ["name", "title", "abstract", "keywords", "boundingBoxes", "visible", "authority",
    "datasetMetadataUrl", "minScale", "maxScale", "styles", "data"]

/-- The members of the attributes. -/
def toFields (a : Attributes) : Fields :=
  Fields.ofOption "name" text a.name
    ++ Fields.ofOption "title" text a.title
    ++ Fields.ofOption "abstract" text a.abstract
    ++ Fields.ofOption "keywords" (fun ks => .array (ks.map text)) a.keywords
    ++ Fields.ofList "boundingBoxes" DeclaredBox.toJson a.boxes
    ++ Fields.ofOption "visible" Json.bool a.visible
    ++ Fields.ofOption "authority" Authority.toJson a.authority
    ++ Fields.ofOption "datasetMetadataUrl" metadataToJson a.metadata
    ++ Fields.ofOption "minScale" Json.real a.minScale
    ++ Fields.ofOption "maxScale" Json.real a.maxScale
    ++ Fields.ofList "styles" Style.toJson a.styles
    ++ Fields.ofOption "data" Source.toJson a.source

/-- Write attributes. -/
def toJson (a : Attributes) : Json := .record a.toFields

/-- The attributes that the members of a record describe. -/
def ofFields (r : Fields) : Option Attributes := do
  return {
    name := ← r.optional "name" asText
    title := ← r.optional "title" asText
    abstract := ← r.optional "abstract" asText
    keywords := ← r.optional "keywords" (asList asText)
    boxes := ← r.withDefault "boundingBoxes" [] (asList DeclaredBox.ofJson)
    visible := ← r.optional "visible" asBool
    authority := ← r.optional "authority" Authority.ofJson
    metadata := ← r.optional "datasetMetadataUrl" metadataOfJson
    minScale := ← r.optional "minScale" asReal
    maxScale := ← r.optional "maxScale" asReal
    styles := ← r.withDefault "styles" [] (asList Style.ofJson)
    source := ← r.optional "data" Source.ofJson }

/-- Read attributes. -/
def ofJson (j : Json) : Option Attributes := do ofFields (← Json.fields keys j)

end Attributes

end MapLayers
