import MapLayers.Flat.Assembly
import MapLayers.Flat.Sweep
import MapLayers.Service.Description

/-!
# From flat to nested

`Entry.nest` makes one nested layer of a flat list.  A single entry without a parent is the top
layer.  Several such entries are put, in order, below a top layer that is made up for them; it has
the given attributes, but never a name.

What is wrong with a list is reported in a fixed order: that it is empty; the first reference that
does not name exactly one entry; that every entry has a parent; the first entry that is on a cycle
or below one.  Nothing is assembled before all of this has been looked for, so a list is nested as a
whole or not at all.

`LayerInput.nest` does this for layers in either form; the nested form needs nothing.
-/

set_option autoImplicit false

namespace MapLayers

namespace Entry

/-- The slots that hold the attributes of all entries. -/
def slots (es : List Entry) : Slots := (es.map fun e => some e.attributes).toArray

/-- The attributes of a top layer that is made up: the given ones, without a name. -/
def madeUpTop (top : Option Attributes) : Attributes := { top.getD {} with name := none }

/-- The layer that entries with the given parents and roots make. -/
def gather (es : List Entry) (parents : List (Option Nat)) (top : Option Attributes) :
    List Nat → Layer
  | [root] => (assemble (childTable parents) root (slots es)).1
  | roots => .node (madeUpTop top) (assembleAll (childTable parents) roots (slots es)).1

/-- The nested form of a flat list. -/
def nest (top : Option Attributes) (es : List Entry) : Except FlatError Layer :=
  if es.isEmpty then .error .empty
  else
    match parentPositions es with
    | .error error => .error error
    | .ok parents =>
      let roots := positionsUnder parents none
      if roots.isEmpty then .error .noRoot
      else
        match (Sweep.ofParents parents).firstUnmarked with
        | some i => .error (.cycle ((es.getD i {}).displayName i))
        | none => .ok (gather es parents top roots)

end Entry

/-- The nested form of layers in either form.  The attributes are for a top layer that has to be
made up. -/
def LayerInput.nest (top : Option Attributes) : LayerInput → Except FlatError Layer
  | .flat entries => Entry.nest top entries
  | .nested layer => .ok layer

end MapLayers
