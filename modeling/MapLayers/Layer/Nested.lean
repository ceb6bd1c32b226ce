import MapLayers.Layer.Attributes

/-!
# Nested layers

`Layer` is the nested form of a description: a layer has its attributes and, in document order, the
layers below it.  It is also what the hierarchy of a service is compared with, so the notions that
are natural by recursion on it, such as the number of layers, are defined here.

The recursion goes through a list of layers at every level.  A definition by recursion on a layer
therefore comes with one on a list of layers, and so does a proof: `Layer.count` has
`Layer.countAll` beside it, and the two call each other.
-/

set_option autoImplicit false

namespace MapLayers

/-- A layer with the layers below it. -/
inductive Layer where
  | node (attributes : Attributes) (children : List Layer)
deriving Repr

namespace Layer

/-- The attributes of the topmost layer. -/
def attributes : Layer → Attributes
  | .node a _ => a

/-- The layers directly below the topmost one, in document order. -/
def children : Layer → List Layer
  | .node _ cs => cs

/-- A layer with nothing below it. -/
def leaf (a : Attributes) : Layer := .node a []

instance : Inhabited Layer := ⟨leaf default⟩

@[simp] theorem node_attributes_children : ∀ l : Layer, node l.attributes l.children = l
  | .node _ _ => rfl

mutual

/-- The number of layers. -/
def count : Layer → Nat
  | .node _ cs => countAll cs + 1

/-- The number of layers in a list of layers and below. -/
def countAll : List Layer → Nat
  | [] => 0
  | c :: cs => c.count + countAll cs

end

theorem countAll_append (cs ds : List Layer) : countAll (cs ++ ds) = countAll cs + countAll ds := by
  induction cs with
  | nil => simp [countAll]
  | cons c cs ih => simp [countAll, ih, Nat.add_assoc]

theorem count_pos : ∀ l : Layer, 0 < l.count
  | .node _ _ => Nat.succ_pos _

end Layer

end MapLayers
