import MapLayers.Hierarchy.Basic
import MapLayers.Service.Settings
import MapLayers.Views.Ordered

/-!
# Views of a hierarchy

What the programs that publish a service ask of its hierarchy: the data layers, the layers with a
legend picture, the styles whose legend has still to be drawn, the data layers that stand for each
group, and the styles that a layer shares with its parent.

Shared styles are found edge by edge.  A layer is compared with its own parent only, never with
layers further up, and visibility makes no difference.

The legend cleanup starts from the table of shared styles, in which there are names only, and looks
each name up in the layer (`Arena.legendCleanup`).  Where a layer has two styles of one name, this
finds the first of them each time.

The routing table is filled by name (`Arena.routing`).  When two groups have one name, the entry of
the second takes the place of that of the first.
-/

set_option autoImplicit false

namespace MapLayers

/-- A style of a layer. -/
structure LayerStyle where
  layer : Nat
  style : Style
deriving DecidableEq, Repr

namespace Arena

/-! ## Layers and legends -/

/-- The data layers, in pre-order. -/
def dataLayers (t : Arena) : List Nat := t.all.filter fun k => t.role k == .data

/-- Whether a layer is visible and has a style with a legend picture. -/
def showsLegend (t : Arena) (k : Nat) : Bool :=
  (t.attributes k).isVisible && (t.attributes k).hasLegend

/-- The layers that are visible and have a style with a legend picture, in pre-order. -/
def layersWithLegend (t : Arena) : List Nat := t.all.filter t.showsLegend

/-- The styles of a layer that have no legend picture. -/
def stylesWithoutLegend (t : Arena) (k : Nat) : List LayerStyle :=
  ((t.attributes k).styles.filter (! ·.hasLegend)).map (LayerStyle.mk k)

/-- The styles whose legend has still to be drawn: those without a picture, on visible layers. -/
def legendsToDraw (t : Arena) : List LayerStyle :=
  (t.all.filter fun k => (t.attributes k).isVisible).flatMap t.stylesWithoutLegend

/-! ## Routing -/

/-- The names of the data layers directly below a group, in order. -/
def leafNames (t : Arena) (group : Nat) : List String :=
  ((t.children group).filter fun k => t.role k == .data).filterMap t.name

/-- For each named group, by name: the names of the data layers directly below it. -/
def routing (t : Arena) : List (String × List String) :=
  (t.all.filter fun k => t.role k == .group).foldl
    (fun table group =>
      match t.name group with
      | none => table
      | some name => insertByKey name (t.leafNames group) table)
    []

/-! ## Styles shared with the parent -/

/-- The names of the styles of a child that its parent has too, in the order of the child. -/
def sharedStyles (t : Arena) (parent child : Nat) : List String :=
  ((t.attributes child).styles.filter fun s => ((t.attributes parent).style? s.name).isSome).map
    Style.name

/-- Enter the styles that the children of a layer share with it, child by child. -/
def enterShared (t : Arena) (table : List (Nat × List String)) (parent : Nat) :
    List (Nat × List String) :=
  (t.children parent).foldl
    (fun table child =>
      if (t.sharedStyles parent child).isEmpty then table
      else insertByKey child (t.sharedStyles parent child) table)
    table

/-- For each layer that has any: the names of the styles that it shares with its parent. -/
def styleCollisions (t : Arena) : List (Nat × List String) := t.all.foldl t.enterShared []

/-- The styles whose legend reference has to follow that of the parent: for each name that a layer
shares with its parent, its first style of that name.  There are none unless the settings call for
cleaning up. -/
def legendCleanup (t : Arena) (s : Settings) : List LayerStyle :=
  if s.cleansSharedStyles then
    t.styleCollisions.flatMap fun (child, names) =>
      (names.filterMap (t.attributes child).style?).map (LayerStyle.mk child)
  else []

end Arena

end MapLayers
