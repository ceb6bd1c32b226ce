import Mathlib.Algebra.Group.Nat.Defs
import Mathlib.Data.List.Forall2
import Mathlib.Data.List.Nodup
import MapLayers.Proofs.Layout.Links
import MapLayers.Samples
import MapLayers.Views.Cursor

/-!
# An arena encodes its tree

The layers of a tree in recursive pre-order, `Layer.preorder`, number its layers; a child of layer
`k` stands at one of the `childPositions` from `k + 1`, after the subtrees of the siblings before
it.  The arena of a tree *encodes* it: it agrees with this numbering about everything that can be
asked, and the tree can be read back from its links alone.

`Arena.Encodes` lists what this comes to: the size, the attributes at each position, the children in
document order both as a list and by a cursor (`Cursor.Yields`), the parent, the bounds of the
links, and `Arena.reread`, which goes down along first children and to the right along siblings and
gives the tree again.  The proof of each part looks at a place and at what is below it; that no
layer is the child of two others (`Arena.nodup_flatMap_children`) is used far beyond this module.

Links are optional positions here.  Where they are kept in machine words, with one word set aside
for "no layer", nothing is lost either, as long as the arena has fewer than `2 ^ 32` layers: no
position is the word that is set aside (`Arena.FitsWords`, `Arena.fitsWords`).

The headline puts both together for the hierarchy of a tree (`Hierarchy.faithful_ofLayer`).
-/

set_option autoImplicit false

namespace MapLayers

namespace Layer

mutual

/-- A layer and all below it, in pre-order. -/
def preorder : Layer → List Layer
  | .node a cs => .node a cs :: preorderAll cs

/-- Some layers and all below them, in pre-order. -/
def preorderAll : List Layer → List Layer
  | [] => []
  | c :: cs => c.preorder ++ preorderAll cs

end

/-- Where siblings stand in pre-order, from the position of the first on: each comes after all that
is below the one before it. -/
def childPositions : Nat → List Layer → List Nat
  | _, [] => []
  | k, c :: cs => k :: childPositions (k + c.count) cs

end Layer

/-! ## Reading a tree back

Two readers of a tree that use links alone: one gives the layers with all below them, the other the
positions that a cursor passes. -/

/-- The layers from a position on, with all below them: down along first children and to the right
along siblings, no more than so many links. -/
def Arena.reread (t : Arena) : Nat → Option Nat → List Layer
  | 0, _ => []
  | _ + 1, none => []
  | n + 1, some k =>
    .node (t.attributes k) (t.reread n (t.firstChild k)) :: t.reread n (t.nextSibling k)

/-- The cursor gives these layers, in this order, and then no more. -/
inductive Cursor.Yields (t : Arena) : Cursor → List Nat → Prop
  | done {c c' : Cursor} (h : c.next t = (none, c')) (h' : c'.next t = (none, c')) : Yields t c []
  | step {c c' : Cursor} {k : Nat} {ks : List Nat} (h : c.next t = (some k, c'))
      (h' : Yields t c' ks) : Yields t c (k :: ks)

/-! ## Links as machine words

A link is a position or nothing, and a word has `2 ^ 32` values.  One of them stands for nothing, so
a position may be kept in a word as long as it is not that one. -/

/-- The word that stands for no layer. -/
def noLayer : UInt32 := 0xFFFFFFFF

/-- A link as a word. -/
def linkWord : Option Nat → UInt32
  | none => noLayer
  | some k => UInt32.ofNat k

/-- The link that a word stands for. -/
def ofLinkWord (w : UInt32) : Option Nat := if w = noLayer then none else some w.toNat

theorem word_of_lt {k : Nat} (h : k + 1 < 2 ^ 32) :
    (UInt32.ofNat k).toNat = k ∧ UInt32.ofNat k ≠ noLayer := by
  have hk : (UInt32.ofNat k).toNat = k := UInt32.toNat_ofNat_of_lt' (by simp [UInt32.size]; omega)
  refine ⟨hk, fun heq => ?_⟩
  rw [heq] at hk
  have hword : noLayer.toNat = 2 ^ 32 - 1 := rfl
  omega

theorem ofLinkWord_linkWord {o : Option Nat} (h : ∀ k, o = some k → k + 1 < 2 ^ 32) :
    ofLinkWord (linkWord o) = o := by
  cases o with
  | none => rfl
  | some k =>
    obtain ⟨hk, hne⟩ := word_of_lt (h k rfl)
    rw [linkWord, ofLinkWord, if_neg hne, hk]

namespace Arena

/-- The arena can be kept with links in words: every position is a word of its own, other than the
one for no layer, and every link is read back as it was. -/
structure FitsWords (t : Arena) : Prop where
  /-- No position is mistaken for another, or for none. -/
  position : ∀ k, k < t.size → (UInt32.ofNat k).toNat = k ∧ UInt32.ofNat k ≠ noLayer
  /-- Links to parents. -/
  parent : ∀ k, ofLinkWord (linkWord (t.parent k)) = t.parent k
  /-- Links to first children. -/
  firstChild : ∀ k, ofLinkWord (linkWord (t.firstChild k)) = t.firstChild k
  /-- Links to next siblings. -/
  nextSibling : ∀ k, ofLinkWord (linkWord (t.nextSibling k)) = t.nextSibling k

/-- The arena says about every layer of the tree, by its number in pre-order, what the tree does,
and the tree can be read back from it. -/
structure Encodes (t : Arena) (l : Layer) : Prop where
  /-- There are as many positions as layers. -/
  size : t.size = l.count
  /-- Pre-order lists each layer once. -/
  length : l.preorder.length = l.count
  /-- A position holds the attributes of the layer of that number, and those of no other. -/
  attributes : ∀ k : Nat, t.nodes[k]?.map Node.attributes = l.preorder[k]?.map Layer.attributes
  /-- The children of a layer are listed in document order. -/
  children : ∀ (k : Nat) (s : Layer), l.preorder[k]? = some s →
    t.children k = Layer.childPositions (k + 1) s.children
  /-- A cursor gives the same children, and then ends. -/
  cursor : ∀ (k : Nat) (s : Layer), l.preorder[k]? = some s →
    (Cursor.children t k).Yields t (Layer.childPositions (k + 1) s.children)
  /-- At the positions of the children are the children. -/
  child : ∀ (k : Nat) (s : Layer), l.preorder[k]? = some s →
    List.Forall₂ (fun p c => l.preorder[p]? = some c) (t.children k) s.children
  /-- The parent of a layer is the one that has it among its children. -/
  parent : ∀ k p, t.parent k = some p ↔
    ∃ s, l.preorder[p]? = some s ∧ k ∈ Layer.childPositions (p + 1) s.children
  /-- The first layer alone has no parent. -/
  top : ∀ k, k < t.size → (t.parent k = none ↔ k = 0)
  /-- The whole tree can be read back. -/
  reread : ∀ n, t.size ≤ n → t.reread n (some 0) = [l]
  /-- Parents come first. -/
  parent_lt : ∀ k p, t.parent k = some p → p < k
  /-- A first child comes directly after its parent. -/
  firstChild : ∀ k c, t.firstChild k = some c → c = k + 1 ∧ c < t.size
  /-- Siblings come later. -/
  nextSibling : ∀ k s, t.nextSibling k = some s → k < s ∧ s < t.size

end Arena

/-! ## Pre-order and places -/

namespace Place

theorem positions_siblingPlaces (parent : Nat) : ∀ (cs : List Layer) (k : Nat),
    (Layer.siblingPlaces parent k cs).map position = Layer.childPositions k cs
  | [], _ => rfl
  | c :: cs, k => by
    rw [Layer.siblingPlaces, Layer.childPositions, List.map_cons, positions_siblingPlaces parent cs]

mutual

theorem layers_places : ∀ (l : Layer) (k : Nat) (p nx : Option Nat),
    (Layer.places k p nx l).map layer = l.preorder
  | .node a cs, k, p, nx => by
    rw [Layer.places, Layer.preorder, List.map_cons, layers_placesAll]

theorem layers_placesAll : ∀ (cs : List Layer) (p k : Nat),
    (Layer.placesAll p k cs).map layer = Layer.preorderAll cs
  | [], _, _ => rfl
  | c :: cs, p, k => by
    rw [Layer.placesAll, Layer.preorderAll, List.map_append, layers_places, layers_placesAll]

end

variable {l s : Layer} {k : Nat}

/-- The layer with a number in pre-order is the one at the place with that position. -/
theorem preorder_eq_some_iff :
    l.preorder[k]? = some s ↔ ∃ q ∈ (top l).all, q.position = k ∧ q.layer = s := by
  rw [← layers_places l 0 none none, List.getElem?_map, Option.map_eq_some_iff]
  refine ⟨?_, ?_⟩
  · rintro ⟨q, hq, rfl⟩
    have hpos := position_getElem (q := top l) hq
    exact ⟨q, List.mem_of_getElem? hq, by rw [hpos]; exact Nat.zero_add k, rfl⟩
  · rintro ⟨q, hq, rfl, rfl⟩
    exact ⟨q, (getElem_of_mem hq).1, rfl⟩

theorem length_preorder (l : Layer) : l.preorder.length = l.count := by
  rw [← layers_places l 0 none none, List.length_map]
  exact length_all (top l)

end Place

namespace Arena

variable {l : Layer}

/-! ## The arena of a tree encodes it

Every part of `Arena.Encodes` is read off places.  The positions of children in pre-order are the
positions of the places of the children, which is how recursion on the tree and links come together.
-/

/-- Siblings are read back from their links, with all below them. -/
theorem reread_siblings : ∀ (cs : List Layer) (parent k n : Nat),
    (∀ c ∈ Layer.siblingPlaces parent k cs, c ∈ (Place.top l).all) → Layer.countAll cs ≤ n →
      (ofLayer l).reread n (firstOf k cs) = cs
  | [], _, _, n, _, _ => by cases n <;> rfl
  | .node a ds :: cs, parent, k, n, h, hn => by
    rw [Layer.siblingPlaces] at h
    have hc := h _ List.mem_cons_self
    rw [Layer.countAll, Layer.count] at hn
    obtain ⟨m, rfl⟩ : ∃ m, n = m + 1 := ⟨n - 1, by omega⟩
    have hbelow := reread_siblings ds k (k + 1) m
      (fun d hd => Place.mem_all_of_mem_children hc hd) (by omega)
    have hafter := reread_siblings cs parent (k + (Layer.node a ds).count) m
      (fun d hd => h d (List.mem_cons_of_mem _ hd)) (by omega)
    have hattributes := attributes_eq hc
    have hfirst := firstChild_eq hc
    have hnext := nextSibling_eq hc
    simp only [Layer.attributes, Layer.children] at hattributes hfirst hnext
    rw [firstOf_cons, reread, hattributes, hfirst, hnext, hbelow, hafter]

theorem reread_top {n : Nat} (h : (ofLayer l).size ≤ n) : (ofLayer l).reread n (some 0) = [l] := by
  obtain ⟨a, cs⟩ := l
  rw [size_ofLayer, Layer.count] at h
  obtain ⟨m, rfl⟩ : ∃ m, n = m + 1 := ⟨n - 1, by omega⟩
  have htop := Place.mem_all_self (Place.top (.node a cs))
  have hbelow := reread_siblings (l := .node a cs) cs 0 1 m
    (fun d hd => Place.mem_all_of_mem_children htop hd) (by omega)
  have hattributes := attributes_eq htop
  have hfirst := firstChild_eq htop
  have hnext := nextSibling_eq htop
  simp only [Place.top, Layer.attributes, Layer.children] at hattributes hfirst hnext
  rw [reread, hattributes, hfirst, hnext, hbelow]
  cases m <;> rfl

/-- A cursor at the first of some siblings gives them all, and ends. -/
theorem Row.yields {t : Arena} {first : Option Nat} {ks : List Nat} (h : t.Row first ks) :
    Cursor.Yields t (.siblings first) ks := by
  induction h with
  | last => exact .done rfl rfl
  | next _ ih => exact .step rfl ih

theorem mem_childPositions_iff {k p : Nat} :
    (∃ s, l.preorder[p]? = some s ∧ k ∈ Layer.childPositions (p + 1) s.children) ↔
      ∃ q ∈ (Place.top l).all, q.position = p ∧ ∃ c ∈ q.children, c.position = k := by
  refine ⟨?_, ?_⟩
  · rintro ⟨s, hs, hk⟩
    obtain ⟨q, hq, rfl, rfl⟩ := Place.preorder_eq_some_iff.mp hs
    rw [← Place.positions_siblingPlaces q.position] at hk
    obtain ⟨c, hc, rfl⟩ := List.mem_map.mp hk
    exact ⟨q, hq, rfl, c, hc, rfl⟩
  · rintro ⟨q, hq, rfl, c, hc, rfl⟩
    refine ⟨q.layer, Place.preorder_eq_some_iff.mpr ⟨q, hq, rfl, rfl⟩, ?_⟩
    rw [← Place.positions_siblingPlaces q.position]
    exact List.mem_map_of_mem hc

theorem parent_eq_some_iff {k p : Nat} : (ofLayer l).parent k = some p ↔
    ∃ q ∈ (Place.top l).all, q.position = p ∧ ∃ c ∈ q.children, c.position = k := by
  refine ⟨?_, ?_⟩
  · intro h
    have hk : k < (ofLayer l).size := by
      by_contra hge
      rw [parent, Array.getElem?_eq_none (Nat.le_of_not_lt hge)] at h
      exact absurd h (by simp)
    obtain ⟨c, hc, rfl⟩ := exists_place hk
    rw [parent_eq hc] at h
    rcases Place.eq_or_mem_children hc with rfl | ⟨q, hq, hcq⟩
    · exact absurd h (by simp [Place.top])
    · rw [Place.parent_of_mem_children hcq] at h
      exact ⟨q, hq, Option.some.inj h, c, hcq, rfl⟩
  · rintro ⟨q, hq, rfl, c, hc, rfl⟩
    rw [parent_eq (Place.mem_all_of_mem_children hq hc), Place.parent_of_mem_children hc]

theorem lt_size_of_parent {k p : Nat} (h : (ofLayer l).parent k = some p) :
    k < (ofLayer l).size := by
  obtain ⟨q, hq, -, c, hc, rfl⟩ := parent_eq_some_iff.mp h
  exact position_lt_size (Place.mem_all_of_mem_children hq hc)

theorem mem_children_iff {p c : Nat} (hp : p < (ofLayer l).size) :
    c ∈ (ofLayer l).children p ↔ (ofLayer l).parent c = some p := by
  obtain ⟨q, hq, rfl⟩ := exists_place hp
  rw [children_eq hq, parent_eq_some_iff, List.mem_map]
  refine ⟨fun ⟨d, hd, h⟩ => ⟨q, hq, rfl, d, hd, h⟩, ?_⟩
  rintro ⟨r, hr, hrq, d, hd, h⟩
  obtain rfl := Place.eq_of_position_eq hr hq hrq
  exact ⟨d, hd, h⟩

theorem nodup_children {p : Nat} (hp : p < (ofLayer l).size) : ((ofLayer l).children p).Nodup := by
  obtain ⟨q, hq, rfl⟩ := exists_place hp
  rw [children_eq hq]
  exact (Place.pairwise_siblings q.position q.layer.children (q.position + 1)).imp Nat.ne_of_lt

/-- **No layer is the child of two others**, so the children of several layers make one list without
repetitions. -/
theorem nodup_flatMap_children {ps : List Nat} (hnd : ps.Nodup)
    (hps : ∀ p ∈ ps, p < (ofLayer l).size) : (ps.flatMap (ofLayer l).children).Nodup := by
  refine List.nodup_flatMap.mpr ⟨fun p hp => nodup_children (hps p hp), ?_⟩
  refine hnd.imp_of_mem fun {p j} hp hj hne c hc hc' => hne ?_
  rw [mem_children_iff (hps p hp)] at hc
  rw [mem_children_iff (hps j hj)] at hc'
  exact Option.some.inj (hc.symm.trans hc')

/-- At the positions of siblings are those siblings. -/
theorem forall₂_siblings {parent : Nat} : ∀ (cs : List Layer) (k : Nat),
    (∀ c ∈ Layer.siblingPlaces parent k cs, c ∈ (Place.top l).all) →
      List.Forall₂ (fun p c => l.preorder[p]? = some c)
        ((Layer.siblingPlaces parent k cs).map Place.position) cs
  | [], _, _ => .nil
  | c :: cs, k, h => by
    rw [Layer.siblingPlaces] at h ⊢
    have hc := h _ List.mem_cons_self
    refine .cons (Place.preorder_eq_some_iff.mpr ⟨_, hc, rfl, rfl⟩) ?_
    exact forall₂_siblings cs (k + c.count) fun d hd => h d (List.mem_cons_of_mem _ hd)

theorem attributes_preorder (k : Nat) :
    (ofLayer l).nodes[k]?.map Node.attributes = l.preorder[k]?.map Layer.attributes := by
  rw [← Array.getElem?_toList, nodes_ofLayer, ← Place.layers_places l 0 none none,
    List.getElem?_map, List.getElem?_map, Option.map_map, Option.map_map]
  rfl

theorem firstChild_bounds {k c : Nat} (h : (ofLayer l).firstChild k = some c) :
    c = k + 1 ∧ c < (ofLayer l).size := by
  rcases Nat.lt_or_ge k (ofLayer l).size with hk | hk
  · obtain ⟨q, hq, rfl⟩ := exists_place hk
    rw [firstChild_eq hq] at h
    cases hcs : q.layer.children with
    | nil => simp [hcs] at h
    | cons d ds =>
      rw [hcs, firstOf_cons] at h
      obtain rfl : q.position + 1 = c := Option.some.inj h
      have hd : ⟨d, q.position + 1, some q.position, firstOf (q.position + 1 + d.count) ds⟩
          ∈ q.children := by
        rw [Place.children, hcs, Layer.siblingPlaces]
        exact List.mem_cons_self
      exact ⟨rfl, position_lt_size (Place.mem_all_of_mem_children hq hd)⟩
  · rw [firstChild, Array.getElem?_eq_none hk] at h
    exact absurd h (by simp)

theorem nextSibling_bounds {k s : Nat} (h : (ofLayer l).nextSibling k = some s) :
    k < s ∧ s < (ofLayer l).size := by
  rcases Nat.lt_or_ge k (ofLayer l).size with hk | hk
  · obtain ⟨c, hc, rfl⟩ := exists_place hk
    rw [nextSibling_eq hc] at h
    rcases Place.eq_or_mem_children hc with rfl | ⟨q, hq, hcq⟩
    · exact absurd h (by simp [Place.top])
    · have hpos := c.layer.count_pos
      have hend := Place.end_le hq
      simp only [Place.top] at hend
      rw [size_ofLayer]
      rcases Place.nextSibling_of_mem_children hcq with ⟨hs, hlt⟩ | ⟨hs, -⟩
      · rw [hs] at h
        have heq := Option.some.inj h
        exact ⟨by omega, by omega⟩
      · rw [hs] at h
        exact absurd h (by simp)
  · rw [nextSibling, Array.getElem?_eq_none hk] at h
    exact absurd h (by simp)

/-- **An arena encodes its tree.** -/
theorem encodes (l : Layer) : (ofLayer l).Encodes l where
  size := size_ofLayer l
  length := Place.length_preorder l
  attributes := attributes_preorder
  children k s hs := by
    obtain ⟨q, hq, rfl, rfl⟩ := Place.preorder_eq_some_iff.mp hs
    rw [children_eq hq]
    exact Place.positions_siblingPlaces _ _ _
  cursor k s hs := by
    obtain ⟨q, hq, rfl, rfl⟩ := Place.preorder_eq_some_iff.mp hs
    rw [← Place.positions_siblingPlaces q.position]
    exact (row_children hq).yields
  child k s hs := by
    obtain ⟨q, hq, rfl, rfl⟩ := Place.preorder_eq_some_iff.mp hs
    rw [children_eq hq]
    exact forall₂_siblings _ _ fun c hc => Place.mem_all_of_mem_children hq hc
  parent k p := parent_eq_some_iff.trans mem_childPositions_iff.symm
  top k hk := by
    obtain ⟨q, hq, rfl⟩ := exists_place hk
    rw [parent_eq hq]
    exact Place.parent_top_iff hq
  reread n hn := reread_top hn
  parent_lt k p hp := by
    obtain ⟨q, -, rfl, c, hc, rfl⟩ := parent_eq_some_iff.mp hp
    exact Place.position_lt_of_mem_children hc
  firstChild k c hc := firstChild_bounds hc
  nextSibling k s hs := nextSibling_bounds hs

theorem fitsWords {l : Layer} (h : l.count < 2 ^ 32) : (ofLayer l).FitsWords where
  position k hk := word_of_lt (by rw [size_ofLayer] at hk; omega)
  parent k := ofLinkWord_linkWord fun p hp => by
    obtain ⟨q, hq, rfl, -⟩ := parent_eq_some_iff.mp hp
    have hlt := position_lt_size hq
    rw [size_ofLayer] at hlt
    omega
  firstChild k := ofLinkWord_linkWord fun c hc => by
    have hlt := (firstChild_bounds hc).2
    rw [size_ofLayer] at hlt
    omega
  nextSibling k := ofLinkWord_linkWord fun s hs => by
    have hlt := (nextSibling_bounds hs).2
    rw [size_ofLayer] at hlt
    omega

end Arena

namespace Hierarchy

/-- **The hierarchy of a tree is a faithful encoding of it**, with links as positions and, as long
as positions fit, with links as words. -/
theorem faithful_ofLayer (l : Layer) (primary : Crs) (h : l.count < 2 ^ 32) :
    (ofLayer l primary).toArena.Encodes l ∧ (ofLayer l primary).toArena.FitsWords :=
  ⟨Arena.encodes l, Arena.fitsWords h⟩

theorem faithful_ofLayer_service :
    Samples.service.count < 2 ^ 32 ∧
      (ofLayer Samples.service .standard).toArena.Encodes Samples.service ∧
        (ofLayer Samples.service .standard).toArena.FitsWords :=
  have h : Samples.service.count < 2 ^ 32 := by decide
  ⟨h, faithful_ofLayer Samples.service .standard h⟩

end Hierarchy

end MapLayers
