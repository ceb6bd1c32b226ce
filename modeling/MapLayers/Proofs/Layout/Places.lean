import MapLayers.Hierarchy.Layout

/-!
# Places in pre-order

A `Place` is a layer of a tree together with where pre-order puts it: its own position and the
positions of its parent and of its next sibling.  The places of a whole tree are found by recursion
on the tree, without an arena: the first child stands directly after its parent, and every other
child after all that lies below the sibling before it.

What an arena holds at a position is a function of the place there (`Place.node`), so statements
about arenas become statements about places, and nothing has to be said about stacks, side tables or
links that are patched later.  Two facts carry most of what follows.

* A place and all below it stand one after the other (`Place.positions_all`), as many as there are
  layers in the subtree.  So a position decides the place (`Place.eq_of_position_eq`), and every
  position in the range has one (`Place.exists_of_position`).
* What holds of a place and passes from every place to its children holds of all places below
  (`Place.all_induction`).  Recursion on the tree alone would not do for this, as it forgets where
  it is.
-/

set_option autoImplicit false

namespace MapLayers

/-- A layer of a tree, with where it stands in pre-order. -/
structure Place where
  /-- The layer, with all below it. -/
  layer : Layer
  /-- Where it stands. -/
  position : Nat
  /-- Where its parent stands. -/
  parent : Option Nat
  /-- Where its next sibling stands. -/
  nextSibling : Option Nat

/-- Where the next of some siblings stands, when they start at the given position. -/
def firstOf (position : Nat) (siblings : List Layer) : Option Nat :=
  if siblings.isEmpty then none else some position

@[simp] theorem firstOf_nil (k : Nat) : firstOf k [] = none := rfl

@[simp] theorem firstOf_cons (k : Nat) (c : Layer) (cs : List Layer) :
    firstOf k (c :: cs) = some k := rfl

namespace Layer

/-- The places of some siblings that start at the given position. -/
def siblingPlaces (parent : Nat) (position : Nat) : List Layer → List Place
  | [] => []
  | c :: cs =>
    ⟨c, position, some parent, firstOf (position + c.count) cs⟩
      :: siblingPlaces parent (position + c.count) cs

mutual

/-- The places of a layer and all below it, in pre-order. -/
def places (position : Nat) (parent nextSibling : Option Nat) : Layer → List Place
  | .node a cs =>
    ⟨.node a cs, position, parent, nextSibling⟩ :: placesAll position (position + 1) cs

/-- The places of some siblings and all below them, in pre-order. -/
def placesAll (parent : Nat) (position : Nat) : List Layer → List Place
  | [] => []
  | c :: cs =>
    places position (some parent) (firstOf (position + c.count) cs) c
      ++ placesAll parent (position + c.count) cs

end

end Layer

namespace Place

/-- The place of a whole tree. -/
def top (l : Layer) : Place := ⟨l, 0, none, none⟩

/-- The places of the children of a place, in document order. -/
def children (q : Place) : List Place :=
  Layer.siblingPlaces q.position (q.position + 1) q.layer.children

/-- A place and all below it, in pre-order. -/
def all (q : Place) : List Place := q.layer.places q.position q.parent q.nextSibling

/-- What an arena holds at a place. -/
def node (q : Place) : Node where
  attributes := q.layer.attributes
  parent := q.parent
  firstChild := firstOf (q.position + 1) q.layer.children
  nextSibling := q.nextSibling

end Place

namespace Place

/-! ## A place and what is below it -/

theorem placesAll_eq (parent : Nat) : ∀ (cs : List Layer) (k : Nat),
    Layer.placesAll parent k cs = (Layer.siblingPlaces parent k cs).flatMap all
  | [], _ => by simp [Layer.placesAll, Layer.siblingPlaces]
  | c :: cs, k => by
    rw [Layer.placesAll, Layer.siblingPlaces, List.flatMap_cons, placesAll_eq parent cs]
    rfl

/-- What is below a place is what is below its children, one after the other. -/
theorem all_eq (q : Place) : q.all = q :: q.children.flatMap all := by
  obtain ⟨⟨a, cs⟩, k, p, nx⟩ := q
  rw [all, Layer.places, placesAll_eq]
  rfl

theorem mem_all_self (q : Place) : q ∈ q.all := by
  rw [all_eq]
  exact List.mem_cons_self

theorem mem_all_iff {q r : Place} : r ∈ q.all ↔ r = q ∨ ∃ c ∈ q.children, r ∈ c.all := by
  rw [all_eq, List.mem_cons, List.mem_flatMap]

/-! ## Positions

Positions count the places in pre-order, so the place at an index of the list stands at that
position from the first on. -/

/-- The positions of some siblings and all below them follow one another. -/
theorem positions_siblings (parent : Nat) : ∀ (cs : List Layer) (k : Nat),
    (∀ c ∈ cs, ∀ (j : Nat) (p nx : Option Nat),
      (Layer.places j p nx c).map position = List.range' j c.count) →
    ((Layer.siblingPlaces parent k cs).flatMap all).map position
      = List.range' k (Layer.countAll cs)
  | [], _, _ => by simp [Layer.siblingPlaces, Layer.countAll]
  | c :: cs, k, h => by
    have hhead := h c List.mem_cons_self
    have htail := positions_siblings parent cs (k + c.count)
      fun d hd => h d (List.mem_cons_of_mem c hd)
    rw [Layer.siblingPlaces, List.flatMap_cons, List.map_append, htail, all, hhead, Layer.countAll,
      List.range'_append_1]

theorem positions_places : ∀ (l : Layer) (k : Nat) (p nx : Option Nat),
    (Layer.places k p nx l).map position = List.range' k l.count
  | .node a cs, k, p, nx => by
    have h := positions_siblings k cs (k + 1) fun c hc => positions_places c
    rw [Layer.places, placesAll_eq, List.map_cons, h, Layer.count, List.range'_succ]

/-- **A place and all below it stand one after the other.** -/
theorem positions_all (q : Place) :
    q.all.map position = List.range' q.position q.layer.count :=
  positions_places _ _ _ _

theorem length_all (q : Place) : q.all.length = q.layer.count := by
  rw [← List.length_map, positions_all, List.length_range']

theorem position_getElem {q r : Place} {i : Nat} (h : q.all[i]? = some r) :
    r.position = q.position + i := by
  have hi : i < q.all.length := (List.getElem?_eq_some_iff.mp h).1
  have hr : (q.all.map position)[i]? = some r.position := by rw [List.getElem?_map, h]; rfl
  rw [positions_all, List.getElem?_range' (by rwa [← length_all])] at hr
  simpa using hr.symm

theorem getElem_of_mem {q r : Place} (h : r ∈ q.all) :
    q.all[r.position - q.position]? = some r ∧ q.position ≤ r.position := by
  obtain ⟨i, hi⟩ := List.mem_iff_getElem?.mp h
  have hpos := position_getElem hi
  exact ⟨by rw [hpos, Nat.add_sub_cancel_left]; exact hi, by omega⟩

/-- No two places of a tree have one position. -/
theorem eq_of_position_eq {q r s : Place} (hr : r ∈ q.all) (hs : s ∈ q.all)
    (h : r.position = s.position) : r = s := by
  have h₁ := (getElem_of_mem hr).1
  rw [h, (getElem_of_mem hs).1] at h₁
  exact (Option.some.inj h₁).symm

/-- The positions below a place reach from its own up to where its last descendant stands. -/
theorem position_mem_all {q r : Place} (h : r ∈ q.all) :
    q.position ≤ r.position ∧ r.position < q.position + q.layer.count := by
  have hr : r.position ∈ q.all.map position := List.mem_map_of_mem h
  rw [positions_all, List.mem_range'_1] at hr
  exact hr

/-- Every position below a place has its own place. -/
theorem exists_of_position {q : Place} {k : Nat} (h : q.position ≤ k)
    (h' : k < q.position + q.layer.count) : ∃ r ∈ q.all, r.position = k := by
  have hk : k ∈ q.all.map position := by
    rw [positions_all, List.mem_range'_1]
    exact ⟨h, h'⟩
  exact List.mem_map.mp hk

/-! ## Induction from parents to children

The induction is on the number of layers in a subtree, which gets smaller from a place to its
children. -/

theorem count_le_of_mem_siblings {parent : Nat} {c : Place} : ∀ {cs : List Layer} {k : Nat},
    c ∈ Layer.siblingPlaces parent k cs → c.layer.count ≤ Layer.countAll cs
  | [], _, h => by simp [Layer.siblingPlaces] at h
  | d :: ds, k, h => by
    rw [Layer.siblingPlaces, List.mem_cons] at h
    rw [Layer.countAll]
    rcases h with rfl | h
    · exact Nat.le_add_right _ _
    · exact Nat.le_add_left_of_le (count_le_of_mem_siblings h)

theorem count_lt_of_mem_children {q c : Place} (h : c ∈ q.children) :
    c.layer.count < q.layer.count := by
  have hle := count_le_of_mem_siblings h
  obtain ⟨⟨a, cs⟩, k, p, nx⟩ := q
  exact Nat.lt_succ_of_le hle

/-- **What holds of a place and passes from every place to its children holds of all places
below.** -/
theorem all_induction {motive : Place → Prop} (q : Place) (self : motive q)
    (child : ∀ r ∈ q.all, motive r → ∀ c ∈ r.children, motive c) : ∀ r ∈ q.all, motive r := by
  intro r hr
  rcases mem_all_iff.mp hr with rfl | ⟨c, hc, hrc⟩
  · exact self
  · have hdec := count_lt_of_mem_children hc
    refine all_induction c (child q (mem_all_self q) self c hc) (fun s hs hm d hd => ?_) r hrc
    exact child s (mem_all_iff.mpr (Or.inr ⟨c, hc, hs⟩)) hm d hd
termination_by q.layer.count

/-- What is below something below a place is below the place. -/
theorem mem_all_trans {q r s : Place} (hr : r ∈ q.all) (hs : s ∈ r.all) : s ∈ q.all := by
  rcases mem_all_iff.mp hr with rfl | ⟨c, hc, hrc⟩
  · exact hs
  · have hdec := count_lt_of_mem_children hc
    exact mem_all_iff.mpr (Or.inr ⟨c, hc, mem_all_trans hrc hs⟩)
termination_by q.layer.count

theorem mem_all_of_mem_children {q r c : Place} (hr : r ∈ q.all) (hc : c ∈ r.children) :
    c ∈ q.all :=
  mem_all_trans hr (mem_all_iff.mpr (Or.inr ⟨c, hc, mem_all_self c⟩))

/-! ## Siblings -/

theorem parent_of_mem_siblings {parent : Nat} {c : Place} : ∀ {cs : List Layer} {k : Nat},
    c ∈ Layer.siblingPlaces parent k cs → c.parent = some parent
  | [], _, h => by simp [Layer.siblingPlaces] at h
  | d :: ds, k, h => by
    rw [Layer.siblingPlaces, List.mem_cons] at h
    rcases h with rfl | h
    · rfl
    · exact parent_of_mem_siblings h

theorem parent_of_mem_children {q c : Place} (h : c ∈ q.children) : c.parent = some q.position :=
  parent_of_mem_siblings h

/-- The places of siblings are those of the given layers, in the same order. -/
theorem layers_siblings (parent : Nat) : ∀ (cs : List Layer) (k : Nat),
    (Layer.siblingPlaces parent k cs).map layer = cs
  | [], _ => rfl
  | c :: cs, k => by
    rw [Layer.siblingPlaces, List.map_cons, layers_siblings parent cs]

theorem layers_children (q : Place) : q.children.map layer = q.layer.children :=
  layers_siblings _ _ _

end Place

end MapLayers
