import MapLayers.Hierarchy.Basic

/-!
# Outlines

The outline of a hierarchy has a row for each layer, in pre-order, indented by two spaces a level:
the name, the role in brackets, and what else there is to say about the layer.  Effective boxes are
listed when asked for, each with its origin: the name of the ancestor after an arrow, or a star for
a standard extent.  The texts in it stand as they are, so a row is one line just when none of them
has a line feed.

A row cannot be indented by more than `maxIndent` spaces.  A hierarchy that would need more has no
outline: drawing one is broken off at the first layer that lies too deep (`TooDeep`), and gives no
text.  As the rows before it are lost, no row is drawn until all layers have been looked at
(`Hierarchy.outlineLines_cons`).

An `Outline` can be used for one hierarchy after another, and shows the last one only
(`Outline.redraw`).
-/

set_option autoImplicit false

namespace MapLayers

/-- The greatest indentation. -/
def maxIndent : Nat := 65535

/-- A layer that lies too deep to be outlined. -/
structure TooDeep where
  layer : Nat
deriving DecidableEq, Repr

namespace Hierarchy

/-- How an outline refers to a layer. -/
def displayName (h : Hierarchy) (k : Nat) : String := (h.name k).getD "(unnamed)"

/-- An effective box with its origin. -/
def boxLabel (h : Hierarchy) (c : Crs) (b : EffectiveBox) : String :=
  match b.origin with
  | .declared => c.id
  | .inherited ancestor => c.id ++ "<-" ++ h.displayName ancestor
  | .standard => c.id ++ "*"

/-- A labelled list, with nothing when it is empty. -/
def listing (label : String) (items : List String) : String :=
  if items.isEmpty then "" else label ++ ",".intercalate items

/-- What the outline says about a layer after its indentation. -/
def outlineEntry (h : Hierarchy) (boxes : Bool) (k : Nat) : String :=
  let a := h.attributes k
  h.displayName k ++ " [" ++ (h.role k).label ++ "]"
    ++ (if a.isHidden then " hidden" else "")
    ++ listing " styles=" (a.styles.map Style.name)
    ++ ((a.source.map fun s => " data=" ++ s.label).getD "")
    ++ (if boxes then listing " bbox=" ((h.boxTable k).map fun (c, b) => h.boxLabel c b) else "")

/-- What the outline says about a layer, indented by the depth of the layer. -/
def outlineRow (h : Hierarchy) (boxes : Bool) (k : Nat) : String :=
  "".pushn ' ' (2 * h.depth k) ++ h.outlineEntry boxes k

/-- Whether a layer lies too deep for its row to be indented. -/
def isTooDeep (h : Hierarchy) (k : Nat) : Bool := maxIndent < 2 * h.depth k

/-- The rows of some layers with a line feed behind each, unless one of the layers lies too deep. -/
def outlineLines (h : Hierarchy) (boxes : Bool) (ks : List Nat) : Except TooDeep (List String) :=
  match ks.find? h.isTooDeep with
  | some k => .error ⟨k⟩
  | none => .ok (ks.map fun k => h.outlineRow boxes k ++ "\n")

/-- Looking for a layer that lies too deep before anything is drawn comes to the same as drawing row
by row and breaking off there. -/
theorem outlineLines_cons (h : Hierarchy) (boxes : Bool) (k : Nat) (ks : List Nat) :
    h.outlineLines boxes (k :: ks) = if h.isTooDeep k then .error ⟨k⟩
      else (h.outlineLines boxes ks).map fun ls => (h.outlineRow boxes k ++ "\n") :: ls := by
  rw [outlineLines, outlineLines, List.find?_cons]
  cases h.isTooDeep k with
  | true => rfl
  | false => cases ks.find? h.isTooDeep <;> rfl

/-- The outline of a hierarchy. -/
def outline (h : Hierarchy) (boxes : Bool) : Except TooDeep String :=
  (h.outlineLines boxes h.all).map String.join

end Hierarchy

/-- The outline of the hierarchy that was read last. -/
structure Outline where
  /-- Whether effective boxes are listed. -/
  boxes : Bool := false
  /-- The text of the outline. -/
  text : String := ""
deriving DecidableEq, Repr, Inhabited

/-- Outline another hierarchy; nothing is left of the one before. -/
def Outline.redraw (o : Outline) (h : Hierarchy) : Except TooDeep Outline :=
  (h.outline o.boxes).map fun text => { o with text }

end MapLayers
