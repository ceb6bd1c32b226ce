import MapLayers.Hierarchy.Walk
import MapLayers.Proofs.Layout.Links

/-!
# Relabelling trees

Two descriptions that differ in what they say about their layers, but not in which layers there are,
have arenas with the same links.  `Layer.relabel` makes such a description of another: it changes
the attributes of each layer, knowing where in pre-order the layer stands.  `Arena.SameLinks` is
what the arenas then have in common (`Arena.sameLinks_relabel`), and everything that is found by
links alone, such as children, roles and walks, is the same for both.

The attributes are found where they were, changed (`Arena.attributes_relabel`).  So a statement
about two trees of one shape becomes one about a single arena and two functions on attributes.  That
a change knows the position makes it possible to change one layer only or to change layers by where
they stand.
-/

set_option autoImplicit false

namespace MapLayers

namespace Layer

mutual

/-- The tree with other attributes, worked out from the position and the attributes of each
layer. -/
def relabel (f : Nat → Attributes → Attributes) (position : Nat) : Layer → Layer
  | .node a cs => .node (f position a) (relabelAll f (position + 1) cs)

/-- Siblings with other attributes, for them and all below them. -/
def relabelAll (f : Nat → Attributes → Attributes) (position : Nat) : List Layer → List Layer
  | [] => []
  | c :: cs => c.relabel f position :: relabelAll f (position + c.count) cs

end

variable (f : Nat → Attributes → Attributes)

mutual

@[simp] theorem count_relabel : ∀ (l : Layer) (k : Nat), (l.relabel f k).count = l.count
  | .node a cs, k => by rw [relabel, count, count, countAll_relabelAll]

@[simp] theorem countAll_relabelAll : ∀ (cs : List Layer) (k : Nat),
    countAll (relabelAll f k cs) = countAll cs
  | [] => by
    intro k
    rfl
  | c :: cs => by
    intro k
    rw [relabelAll, countAll, countAll, count_relabel, countAll_relabelAll]

end

@[simp] theorem firstOf_relabelAll (j k : Nat) (cs : List Layer) :
    firstOf j (relabelAll f k cs) = firstOf j cs := by
  cases cs <;> rfl

end Layer

namespace Place

variable (f : Nat → Attributes → Attributes)

/-- The place in the tree with other attributes. -/
def relabel (q : Place) : Place := { q with layer := q.layer.relabel f q.position }

/-- Only the attributes of a node change. -/
theorem node_relabel (q : Place) :
    (q.relabel f).node = { q.node with attributes := f q.position q.layer.attributes } := by
  obtain ⟨⟨a, cs⟩, k, p, nx⟩ := q
  simp [relabel, node, Layer.relabel, Layer.attributes, Layer.children]

mutual

theorem places_relabel : ∀ (l : Layer) (k : Nat) (p nx : Option Nat),
    (l.relabel f k).places k p nx = (l.places k p nx).map (relabel f)
  | .node a cs, k, p, nx => by
    rw [Layer.relabel, Layer.places, Layer.places, List.map_cons, placesAll_relabel]
    rfl

theorem placesAll_relabel : ∀ (cs : List Layer) (p k : Nat),
    Layer.placesAll p k (Layer.relabelAll f k cs) = (Layer.placesAll p k cs).map (relabel f)
  | [], _, _ => rfl
  | c :: cs, p, k => by
    rw [Layer.relabelAll, Layer.placesAll, Layer.placesAll, List.map_append,
      Layer.firstOf_relabelAll, Layer.count_relabel, places_relabel, placesAll_relabel]

end

/-- **The places of a tree stay where they are** when it is relabelled. -/
theorem all_relabel (l : Layer) : (top (l.relabel f 0)).all = (top l).all.map (relabel f) :=
  places_relabel f l 0 none none

end Place

namespace Arena

/-- Two arenas have the same links. -/
structure SameLinks (t t' : Arena) : Prop where
  size : t'.size = t.size
  parent : t'.parent = t.parent
  firstChild : t'.firstChild = t.firstChild
  nextSibling : t'.nextSibling = t.nextSibling

namespace SameLinks

variable {t t' : Arena} (h : t.SameLinks t')

include h

theorem siblingsFrom_eq : ∀ (n : Nat) (first : Option Nat),
    t'.siblingsFrom n first = t.siblingsFrom n first
  | 0, _ => rfl
  | _ + 1, none => rfl
  | n + 1, some k => by rw [siblingsFrom, siblingsFrom, h.nextSibling, siblingsFrom_eq n]

theorem children_eq : t'.children = t.children := by
  funext k
  rw [children, children, h.firstChild, h.size, h.siblingsFrom_eq]

theorem nextAbove_eq (start : Nat) : ∀ n k : Nat, t'.nextAbove start n k = t.nextAbove start n k
  | 0, _ => rfl
  | n + 1, k => by
    rw [nextAbove, nextAbove, h.nextSibling, h.parent]
    simp only [nextAbove_eq start n]

theorem take_eq : ∀ (n : Nat) (w : Walk), w.take t' n = w.take t n
  | 0, _ => rfl
  | n + 1, w => by
    have hstep : w.step t' = w.step t := by
      simp only [Walk.step, after, h.firstChild, h.size, h.nextAbove_eq]
    rw [Walk.take, Walk.take, hstep]
    simp only [take_eq n]

theorem all_eq : t'.all = t.all := by
  rw [all, all, descendants, descendants, Walk.rest, Walk.rest, h.size, h.take_eq]

end SameLinks

/-- The role of a layer shows in its links. -/
theorem role_eq_of_links (t : Arena) (k : Nat) : t.role k
    = if (t.parent k).isNone then .top else if (t.firstChild k).isSome then .group else .data := by
  rw [role, parent, firstChild]
  cases t.nodes[k]? <;> rfl

theorem SameLinks.role_eq {t t' : Arena} (h : t.SameLinks t') : t'.role = t.role := by
  funext k
  rw [role_eq_of_links, role_eq_of_links, h.parent, h.firstChild]

/-! ## The arena of a relabelled tree -/

variable (f : Nat → Attributes → Attributes) (l : Layer)

theorem getElem?_nodes_relabel (k : Nat) : (ofLayer (l.relabel f 0)).nodes[k]?
    = (ofLayer l).nodes[k]?.map fun n => { n with attributes := f k n.attributes } := by
  rw [← Array.getElem?_toList, ← Array.getElem?_toList, nodes_ofLayer, nodes_ofLayer,
    Place.all_relabel, List.map_map, List.getElem?_map, List.getElem?_map, Option.map_map]
  cases hq : (Place.top l).all[k]? with
  | none => rfl
  | some q =>
    have hpos : q.position = 0 + k := Place.position_getElem hq
    rw [Nat.zero_add] at hpos
    rw [Option.map_some, Option.map_some, Function.comp_apply, Function.comp_apply,
      Place.node_relabel, hpos]
    rfl

theorem sameLinks_relabel : (ofLayer l).SameLinks (ofLayer (l.relabel f 0)) where
  size := by rw [size_ofLayer, size_ofLayer, Layer.count_relabel]
  parent := by
    funext k
    rw [parent, parent, getElem?_nodes_relabel]
    cases (ofLayer l).nodes[k]? <;> rfl
  firstChild := by
    funext k
    rw [firstChild, firstChild, getElem?_nodes_relabel]
    cases (ofLayer l).nodes[k]? <;> rfl
  nextSibling := by
    funext k
    rw [nextSibling, nextSibling, getElem?_nodes_relabel]
    cases (ofLayer l).nodes[k]? <;> rfl

/-- **The attributes of a layer are the changed ones.** -/
theorem attributes_relabel {k : Nat} (h : k < (ofLayer l).size) :
    (ofLayer (l.relabel f 0)).attributes k = f k ((ofLayer l).attributes k) := by
  rw [attributes, attributes, getElem?_nodes_relabel, Array.getElem?_eq_getElem h]
  rfl

theorem attributes_of_size_le {t : Arena} {k : Nat} (h : t.size ≤ k) : t.attributes k = {} := by
  rw [attributes, Array.getElem?_eq_none h]
  rfl

/-- A position with a box is that of a layer. -/
theorem lt_size_of_box? {t : Arena} {k : Nat} {c : Crs} {b : DeclaredBox}
    (h : (t.attributes k).box? c = some b) : k < t.size := by
  refine Nat.lt_of_not_le fun hge => ?_
  rw [attributes_of_size_le hge] at h
  cases h

end Arena

end MapLayers
