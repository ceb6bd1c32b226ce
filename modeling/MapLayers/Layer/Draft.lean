import MapLayers.Flat.Entry
import MapLayers.Layer.Nested

/-!
# Drafting layers

Small steps from which descriptions are put together: start a layer, then change it one thing at a
time.  A *described* layer has title, abstract and keywords, which is what a visible layer needs.

Every step is a function from layers to layers, so that a draft reads from left to right as the list
of what is said about a layer, and ends with the layers below it (`Layer.withChild`).  All of them
change the attributes of the topmost layer and leave what is below alone, by way of `Layer.modify`.

The sample services are written in this way, and a draft can also stand in a flat list:
`Entry.ofLayer` makes an entry of what a draft says about its topmost layer.
-/

set_option autoImplicit false

namespace MapLayers

namespace Layer

/-- Change the attributes of the topmost layer. -/
def modify (f : Attributes → Attributes) (l : Layer) : Layer := .node (f l.attributes) l.children

/-! ## Starting a layer -/

/-- A layer with nothing but a name. -/
def named (name : String) : Layer := leaf { name := some name }

/-- A layer with nothing at all. -/
def unnamed : Layer := leaf {}

/-- Set title, abstract and a single keyword after one text. -/
def describe (text : String) : Layer → Layer :=
  modify fun a =>
    { a with title := some text, abstract := some ("About " ++ text), keywords := some [text] }

/-- A layer that is named and described by one text. -/
def described (name : String) : Layer := (named name).describe name

/-! ## Changing it -/

/-- Set the title. -/
def titled (title : String) : Layer → Layer := modify fun a => { a with title := some title }

/-- Clear title, abstract and keywords. -/
def undescribed : Layer → Layer :=
  modify fun a => { a with title := none, abstract := none, keywords := none }

/-- Say whether the layer is visible. -/
def withVisible (visible : Bool) : Layer → Layer :=
  modify fun a => { a with visible := some visible }

/-- Say that the layer is hidden. -/
def hidden : Layer → Layer := withVisible false

/-- Set the metadata record. -/
def withMetadata (identifier : String) : Layer → Layer :=
  modify fun a => { a with metadata := some identifier }

/-- Set both scales. -/
def withScales (least greatest : Binary64) : Layer → Layer :=
  modify fun a => { a with minScale := some least, maxScale := some greatest }

/-- Declare one more box. -/
def withBox (c : Crs) (rect : Rect) : Layer → Layer :=
  modify fun a => { a with boxes := a.boxes ++ [⟨c, rect⟩] }

/-- Add a style that is titled by its name. -/
def withStyle (name : String) (visualization : Option String := none) : Layer → Layer :=
  modify fun a => { a with styles := a.styles ++ [{ name, title := some name, visualization }] }

/-- The legend picture of drafts: a small square one. -/
def draftLegend (blobKey : String) : Legend := ⟨20, 20, "image/png", blobKey⟩

/-- Give the last style a legend picture. -/
def legendOnLast (blobKey : String) : List Style → List Style
  | [] => []
  | [s] => [{ s with legend := some (draftLegend blobKey) }]
  | s :: t :: rest => s :: legendOnLast blobKey (t :: rest)

/-- Give the style that was added last a legend picture; without styles, nothing happens. -/
def withLegend (blobKey : String) : Layer → Layer :=
  modify fun a => { a with styles := legendOnLast blobKey a.styles }

/-- Columns without aliases. -/
def plainColumns (names : List String) : List Column := names.map fun name => { name }

/-- Draw a table of areas in a database. -/
def fromDatabase (table : String) (columns : List String) : Layer → Layer :=
  modify fun a =>
    { a with source := some (.database ⟨table, "MultiPolygon", plainColumns columns⟩) }

/-- Draw a table of points in a file. -/
def fromFile (blobKey table : String) (columns : List String) : Layer → Layer :=
  modify fun a =>
    { a with source := some (.file blobKey ⟨table, "Point", plainColumns columns⟩) }

/-- Draw a raster image. -/
def fromRaster (blobKey : String) : Layer → Layer :=
  modify fun a => { a with source := some (.raster { blobKey }) }

/-- Put one more layer below, after the others. -/
def withChild (l child : Layer) : Layer := .node l.attributes (l.children ++ [child])

end Layer

/-- The flat entry of a layer, under the parent of the given name.  What is below the layer is left
out. -/
def Entry.ofLayer (parent : Option String) (l : Layer) : Entry := ⟨l.attributes, parent⟩

end MapLayers
