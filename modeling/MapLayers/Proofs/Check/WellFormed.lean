import MapLayers.Layer.Nested
import MapLayers.Service.Settings

/-!
# Well-formed trees

What a service asks of its tree of layers, said by recursion on the tree: a condition on every
layer, which may look at the attributes of the parent but no further (`Layer.Sound`), and two
conditions on the tree as a whole, on its names and on the box of its top layer
(`Layer.WellFormed`).

The condition on a layer is a structure with a field for each thing that is asked, and the settings
say which of them apply.  It is spread over the tree by `Layer.Every`, a recursion that hands the
attributes of each layer to its children.

Nothing here mentions positions, findings or effective boxes.  That a tree is accepted exactly when
it is well formed is the subject of `MapLayers.Proofs.Check.Acceptance`.
-/

set_option autoImplicit false

namespace MapLayers

namespace Layer

mutual

/-- A condition on a layer and the attributes of its parent holds all over a tree. -/
def Every (P : Option Attributes → Layer → Prop) (parent : Option Attributes) : Layer → Prop
  | .node a cs => P parent (.node a cs) ∧ EveryAll P a cs

/-- The condition holds all over the trees of some siblings. -/
def EveryAll (P : Option Attributes → Layer → Prop) (parent : Attributes) : List Layer → Prop
  | [] => True
  | c :: cs => Every P (some parent) c ∧ EveryAll P parent cs

end

mutual

/-- The names in a tree that are not empty, in pre-order. -/
def names : Layer → List String
  | .node a cs => a.name.toList.filter (· ≠ "") ++ namesAll cs

/-- The names in some trees that are not empty. -/
def namesAll : List Layer → List String
  | [] => []
  | c :: cs => c.names ++ namesAll cs

end

/-- What is asked of one layer, given the attributes of its parent if it has one. -/
structure Sound (s : Settings) (parent : Option Attributes) (l : Layer) : Prop where
  /-- Every layer but the top has a name that is not empty. -/
  named : parent ≠ none → ∃ n, l.attributes.name = some n ∧ n ≠ ""
  /-- The top layer and layers with children are not hidden. -/
  shown : parent = none ∨ l.children ≠ [] → l.attributes.visible ≠ some false
  /-- A layer that is not hidden has title, abstract and keywords. -/
  described : l.attributes.visible ≠ some false →
    l.attributes.title ≠ none ∧ l.attributes.abstract ≠ none ∧ l.attributes.keywords ≠ none
  /-- So have its styles a title. -/
  stylesTitled : l.attributes.visible ≠ some false → ∀ st ∈ l.attributes.styles, st.title ≠ none
  /-- The styles have different names. -/
  styleNames : (l.attributes.styles.map Style.name).Nodup
  /-- The declared boxes are for different systems. -/
  boxSystems : (l.attributes.boxes.map DeclaredBox.crs).Nodup
  /-- The columns of the source have different names. -/
  columnNames : ∀ src, l.attributes.source = some src → (src.columns.map Column.name).Nodup
  /-- The layers with a source are those without children, other than the top. -/
  bound : l.attributes.source ≠ none ↔ parent ≠ none ∧ l.children = []
  /-- A service of features alone has neither styles nor rasters. -/
  plain : s.kind = .vectorOnly → l.attributes.styles = [] ∧
    ∀ src, l.attributes.source = some src → src.isRaster = false
  /-- Where styles refer to drawing instructions, exactly those of data layers do. -/
  drawn : s.kind ≠ .vectorOnly → s.staticDrawing = false → ∀ st ∈ l.attributes.styles,
    (st.visualization ≠ none ↔ parent ≠ none ∧ l.children = [])
  /-- Where the drawing instructions are supplied ready made, no style refers to any. -/
  undrawn : s.kind ≠ .vectorOnly → s.staticDrawing = true → ∀ st ∈ l.attributes.styles,
    st.visualization = none
  /-- The least scale is below the greatest. -/
  scales : ∀ least greatest, l.attributes.minScale = some least →
    l.attributes.maxScale = some greatest → ¬ greatest ≤ least
  /-- Where that is an error, no layer that is shown has a style name of its parent. -/
  apart : s.comparesStyles = true → s.rewritesGroups = false → l.attributes.visible ≠ some false →
    ∀ p, parent = some p → ∀ st ∈ l.attributes.styles, ∀ other ∈ p.styles, st.name ≠ other.name

/-- What a service asks of its tree of layers. -/
structure WellFormed (s : Settings) (l : Layer) : Prop where
  /-- Every layer is as it should be. -/
  sound : l.Every (Sound s) none
  /-- No name that is not empty occurs twice. -/
  names : l.names.Nodup
  /-- The top layer declares a box for the primary system, unless that is the standard one. -/
  box : s.primary = .standard ∨ ∃ b ∈ l.attributes.boxes, b.crs = s.primary

end Layer

end MapLayers
