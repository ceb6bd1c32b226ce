import MapLayers.Hierarchy.Arena

/-!
# Laying out a tree

`Arena.ofLayer` puts the layers of a nested description into pre-order.  It keeps a stack of layers
that still have to be placed, each with the position of its parent, and a side table with the last
child placed for each position so far.  Placing a layer gives it the next position and links it from
its parent, if it is the first child, or from the sibling before it; its children then go on the
stack ahead of everything else, in document order.

The arena starts empty and a layer is placed at every step, so the number of layers that are
waiting, with all below them, bounds the steps; after that many the stack is empty and there are as
many positions as layers (`Arena.size_ofLayer`).  A link is set when the layer that it leads to is
placed, so that until then a layer may look as if it had no children or no sibling after it.
-/

set_option autoImplicit false

namespace MapLayers

/-- The layers placed so far, and the last child of each that is placed. -/
structure Layout where
  nodes : Array Node
  lastChild : Array (Option Nat)
deriving Inhabited

namespace Layout

/-- Nothing is placed. -/
def empty : Layout := ⟨#[], #[]⟩

/-- Link a layer that has just been placed from its parent or its previous sibling. -/
def link (position : Nat) (parent : Nat) (l : Layout) : Layout :=
  match l.lastChild.getD parent none with
  | none =>
    ⟨l.nodes.modify parent fun n => { n with firstChild := some position },
      l.lastChild.setIfInBounds parent (some position)⟩
  | some previous =>
    ⟨l.nodes.modify previous fun n => { n with nextSibling := some position },
      l.lastChild.setIfInBounds parent (some position)⟩

/-- Give a layer the next position. -/
def place (attributes : Attributes) (parent : Option Nat) (l : Layout) : Layout :=
  let position := l.nodes.size
  let l : Layout := ⟨l.nodes.push { attributes, parent }, l.lastChild.push none⟩
  match parent with
  | none => l
  | some p => l.link position p

@[simp] theorem size_nodes_link (position parent : Nat) (l : Layout) :
    (l.link position parent).nodes.size = l.nodes.size := by
  simp only [link]
  split <;> simp

/-- Placing a layer takes up one position. -/
@[simp] theorem size_nodes_place (attributes : Attributes) (parent : Option Nat) (l : Layout) :
    (l.place attributes parent).nodes.size = l.nodes.size + 1 := by
  cases parent <;> simp [place]

/-- Place the layers on a stack, and all below them, at most so many. -/
def fill : Nat → List (Layer × Option Nat) → Layout → Layout
  | 0, _, l => l
  | _ + 1, [], l => l
  | n + 1, (layer, parent) :: stack, l =>
    let position := l.nodes.size
    fill n (layer.children.map (·, some position) ++ stack) (l.place layer.attributes parent)

end Layout

namespace Layout

/-- The layers on a stack, without the positions of their parents. -/
def waiting (stack : List (Layer × Option Nat)) : List Layer := stack.map Prod.fst

theorem waiting_children (cs : List Layer) (parent : Option Nat) :
    waiting (cs.map (·, parent)) = cs := by
  simp [waiting, Function.comp_def]

/-- A layer on a stack counts, and so does all below it. -/
theorem countAll_waiting_cons (a : Attributes) (cs : List Layer) (parent : Option Nat)
    (stack : List (Layer × Option Nat)) :
    Layer.countAll (waiting ((.node a cs, parent) :: stack))
      = Layer.countAll cs + 1 + Layer.countAll (waiting stack) := by
  simp [waiting, Layer.countAll, Layer.count]

theorem countAll_waiting_children (cs : List Layer) (parent : Option Nat)
    (stack : List (Layer × Option Nat)) :
    Layer.countAll (waiting (cs.map (·, parent) ++ stack))
      = Layer.countAll cs + Layer.countAll (waiting stack) := by
  rw [waiting, List.map_append, Layer.countAll_append]
  exact congrArg (· + _) (congrArg _ (waiting_children cs parent))

/-- With enough steps, every layer on the stack and below takes up one position. -/
theorem size_nodes_fill (n : Nat) (stack : List (Layer × Option Nat)) (l : Layout)
    (h : Layer.countAll (waiting stack) ≤ n) :
    (fill n stack l).nodes.size = l.nodes.size + Layer.countAll (waiting stack) := by
  induction n generalizing stack l with
  | zero =>
    cases stack with
    | nil => simp [fill, waiting, Layer.countAll]
    | cons top rest =>
      obtain ⟨layer, parent⟩ := top
      have hpos := layer.count_pos
      simp only [waiting, List.map_cons, Layer.countAll] at h
      omega
  | succ n ih =>
    cases stack with
    | nil => simp [fill, waiting, Layer.countAll]
    | cons top rest =>
      obtain ⟨⟨a, cs⟩, parent⟩ := top
      rw [countAll_waiting_cons] at h ⊢
      rw [fill, Layer.children, ih _ _ (by rw [countAll_waiting_children]; omega),
        countAll_waiting_children, size_nodes_place]
      omega

end Layout

/-- The layers of a nested description in pre-order. -/
def Arena.ofLayer (layer : Layer) : Arena :=
  ⟨(Layout.fill layer.count [(layer, none)] Layout.empty).nodes⟩

/-- There are as many positions as layers. -/
theorem Arena.size_ofLayer (layer : Layer) : (Arena.ofLayer layer).size = layer.count := by
  have h := Layout.size_nodes_fill layer.count [(layer, none)] Layout.empty
    (by simp [Layout.waiting, Layer.countAll])
  simpa [Arena.ofLayer, Arena.size, Layout.empty, Layout.waiting, Layer.countAll] using h

end MapLayers
