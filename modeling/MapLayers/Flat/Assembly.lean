import MapLayers.Flat.Links
import MapLayers.Layer.Nested

/-!
# Assembling layers from positions

The attributes of the entries lie in *slots*, one a position, and the children of each position are
known.  Assembling a layer takes its attributes out of the slot and assembles its children in order.
It is done with a stack of frames, each an entry with the layers already assembled for its first
children: their number tells which child comes next.  A frame is closed, and its layer handed to the
frame below, when there is no next child.

Every entry is opened once and closed once, so twice the number of entries bounds the number of
steps.  Depth does not matter for this: the stack is data, and a chain of entries takes no more room
than any other list.

The slots that are left are handed on, so that several roots can be assembled one after the other
(`assembleAll`).
-/

set_option autoImplicit false

namespace MapLayers

/-- Attributes by position, until they are taken. -/
abbrev Slots := Array (Option Attributes)

/-- An entry with the layers assembled for its first children. -/
structure Frame where
  entry : Nat
  done : List Layer

namespace Frame

/-- The next child of the entry of a frame, if it has one. -/
def next (children : Array (List Nat)) (f : Frame) : Option Nat :=
  (children.getD f.entry [])[f.done.length]?

/-- The layer of a frame whose children are all assembled. -/
def close (slots : Slots) (f : Frame) : Layer :=
  .node ((slots.getD f.entry none).getD {}) f.done

end Frame

/-- Open and close frames until the first one, the last of the stack, is closed; give its layer and
the slots that are left. -/
def assembleFrames (children : Array (List Nat)) : Nat → List Frame → Slots → Layer × Slots
  | 0, _, slots => (default, slots)
  | _ + 1, [], slots => (default, slots)
  | n + 1, f :: frames, slots =>
    match f.next children with
    | some child => assembleFrames children n (⟨child, []⟩ :: f :: frames) slots
    | none =>
      let layer := f.close slots
      let slots := slots.setIfInBounds f.entry none
      match frames with
      | [] => (layer, slots)
      | g :: frames => assembleFrames children n (⟨g.entry, g.done ++ [layer]⟩ :: frames) slots

/-- Assemble the layer at a position and all below it. -/
def assemble (children : Array (List Nat)) (position : Nat) (slots : Slots) : Layer × Slots :=
  assembleFrames children (2 * slots.size + 1) [⟨position, []⟩] slots

/-- Assemble the layers at some positions, in order. -/
def assembleAll (children : Array (List Nat)) : List Nat → Slots → List Layer × Slots
  | [], slots => ([], slots)
  | position :: positions, slots =>
    let (layer, slots) := assemble children position slots
    let (layers, slots) := assembleAll children positions slots
    (layer :: layers, slots)

end MapLayers
