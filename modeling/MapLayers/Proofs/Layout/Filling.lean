import MapLayers.Proofs.Layout.Places

/-!
# What filling an arena comes to

`Layout.fill` works off a stack and patches the links of layers that are placed already.  Here it is
compared with the recursive pre-order, in two steps.

* `Layout.settle` places a layer and then, by recursion, the layers below it.  It does to the arena
  what the stack does (`Layout.fill_cons`), so the stack can be forgotten.
* Settling a layer links it to what is there already and appends the nodes of its places
  (`Layout.settle_spec`).  What makes this go through is that the side table with the last child is
  only asked about a parent whose children are being settled, and that settling what is below a
  child leaves that entry alone.

The state in between has a name for each thing that is known of it: `Layout.Ready` before a child is
placed, `Layout.Placed` after that, and `Layout.Settled` when all below the child has been settled
too.  `Layout.grown` is the list of nodes that comes of it, in which one node of those before may be
linked.

Together they say what the arena of a tree holds: `Arena.nodes_ofLayer`.  No later module looks at
`Layout.fill` again.
-/

set_option autoImplicit false

namespace MapLayers

namespace Layout

/-! ## The stack does what recursion does

A stack of layers is settled from the top down.  The number of steps that is left only has to be at
least the number of layers that are waiting. -/

mutual

/-- Place a layer, and then all below it. -/
def settle (parent : Option Nat) : Layer → Layout → Layout
  | .node a cs, l => settleAll l.nodes.size cs (l.place a parent)

/-- Settle some siblings, one after the other. -/
def settleAll (parent : Nat) : List Layer → Layout → Layout
  | [], l => l
  | c :: cs, l => settleAll parent cs (settle (some parent) c l)

end

mutual

/-- With enough steps, the layer on top of the stack is settled before the rest is looked at. -/
theorem fill_cons : ∀ (c : Layer) (p : Option Nat) (n : Nat) (stack : List (Layer × Option Nat))
    (l : Layout), fill (c.count + n) ((c, p) :: stack) l = fill n stack (settle p c l)
  | .node a cs, p, n, stack, l => by
    have hsteps : (Layer.node a cs).count + n = (Layer.countAll cs + n) + 1 := by
      rw [Layer.count]; omega
    rw [hsteps, fill, settle]
    exact fill_append cs l.nodes.size n stack (l.place a p)

theorem fill_append : ∀ (cs : List Layer) (p n : Nat) (stack : List (Layer × Option Nat))
    (l : Layout),
    fill (Layer.countAll cs + n) (cs.map (·, some p) ++ stack) l = fill n stack (settleAll p cs l)
  | [], p, n, stack, l => by
    rw [Layer.countAll, Nat.zero_add]
    rfl
  | c :: cs, p, n, stack, l => by
    rw [Layer.countAll, Nat.add_assoc, List.map_cons, List.cons_append, fill_cons, fill_append,
      settleAll]

end

/-! ## What settling does

The induction is on the tree, with the children of a layer settled from left to right.  Before each
child the side table has the sibling before it, if any, and that sibling is linked to the child. -/

/-- The last child placed so far of the layer at a position. -/
def lastOf (l : Layout) (p : Nat) : Option Nat := l.lastChild.getD p none

/-- The layer at a position may be given another child. -/
structure Ready (l : Layout) (p : Nat) : Prop where
  /-- The side table has an entry for each layer. -/
  size : l.lastChild.size = l.nodes.size
  /-- The parent is placed. -/
  lt : p < l.nodes.size
  /-- So is its last child. -/
  last_lt : ∀ k, l.lastOf p = some k → k < l.nodes.size

/-- The nodes after the next position has been linked as a child of `p`. -/
def linked (l : Layout) (p : Nat) : List Node :=
  match l.lastOf p with
  | none => l.nodes.toList.modify p fun n => { n with firstChild := some l.nodes.size }
  | some k => l.nodes.toList.modify k fun n => { n with nextSibling := some l.nodes.size }

theorem length_linked (l : Layout) (p : Nat) : (l.linked p).length = l.nodes.size := by
  rw [linked]
  split <;> rw [List.length_modify, Array.length_toList]

theorem modify_append_of_lt {α : Type} (f : α → α) {xs : List α} {k : Nat} (h : k < xs.length)
    (ys : List α) : (xs ++ ys).modify k f = xs.modify k f ++ ys := by
  induction xs generalizing k with
  | nil => simp at h
  | cons x xs ih =>
    cases k with
    | zero => rfl
    | succ k => simp [ih (Nat.lt_of_succ_lt_succ h)]

theorem modify_append_length {α : Type} (f : α → α) (xs : List α) (y : α) (ys : List α) :
    (xs ++ y :: ys).modify xs.length f = xs ++ f y :: ys :=
  List.modifyTailIdx_add _ 0 xs (y :: ys)

theorem lastOf_push {l : Layout} (hsize : l.lastChild.size = l.nodes.size) {i : Nat}
    (hi : i < l.nodes.size) : (l.lastChild.push none).getD i none = l.lastOf i := by
  have hi' : i < l.lastChild.size := hsize ▸ hi
  simp [lastOf, Array.getD, Array.getElem_push, hi', Nat.lt_succ_of_lt hi']

/-- What placing a layer has done to the arena and the side table, apart from its parent's entry. -/
structure Placed (l l' : Layout) (before : List Node) (a : Attributes) (p : Option Nat) : Prop where
  /-- The node is appended, without links to what is below. -/
  nodes : l'.nodes.toList = before ++ [{ attributes := a, parent := p }]
  /-- What is there already keeps its positions. -/
  length : before.length = l.nodes.size
  /-- The side table keeps pace. -/
  size : l'.lastChild.size = l'.nodes.size
  /-- The new layer has no child yet. -/
  last : l'.lastOf l.nodes.size = none
  /-- Nothing but the parent has a new child. -/
  other : ∀ i, i < l.nodes.size → p ≠ some i → l'.lastOf i = l.lastOf i

/-- Placing a child links its position and appends its node. -/
theorem placed_child {l : Layout} {p : Nat} (h : l.Ready p) (a : Attributes) :
    Placed l (l.place a (some p)) (l.linked p) a (some p) ∧
      (l.place a (some p)).lastOf p = some l.nodes.size := by
  have hp : p < l.nodes.toList.length := by simpa using h.lt
  have hlast := lastOf_push h.size h.lt
  have hnew : (l.place a (some p)).lastChild
      = (l.lastChild.push none).setIfInBounds p (some l.nodes.size) := by
    rw [place, link]
    simp only
    split <;> rfl
  have hread : ∀ i, (l.place a (some p)).lastOf i
      = if p = i ∧ i < l.nodes.size + 1 then some l.nodes.size
        else (l.lastChild.push none).getD i none := by
    intro i
    rw [lastOf, hnew]
    simp only [Array.getD_eq_getD_getElem?, Array.getElem?_setIfInBounds, Array.size_push, h.size]
    by_cases hpi : p = i
    · by_cases hi : i < l.nodes.size + 1 <;> simp [hpi, hi, h.size]
    · simp [hpi]
  refine ⟨⟨?_, length_linked l p, ?_, ?_, fun i hi hne => ?_⟩, ?_⟩
  · rw [place, link, linked]
    simp only [hlast]
    cases hk : l.lastOf p with
    | none => simp [modify_append_of_lt _ hp]
    | some k =>
      have hk' : k < l.nodes.toList.length := by simpa using h.last_lt k hk
      simp [modify_append_of_lt _ hk']
  · rw [hnew, size_nodes_place]
    simp [h.size]
  · have hne : p ≠ l.nodes.size := Nat.ne_of_lt h.lt
    rw [hread, if_neg (fun hp => hne hp.1), Array.getD_eq_getD_getElem?, ← h.size,
      Array.getElem?_push_size]
    rfl
  · rw [hread, if_neg (fun hp => hne (congrArg some hp.1)), lastOf_push h.size hi]
  · rw [hread, if_pos ⟨rfl, Nat.lt_succ_of_lt h.lt⟩]

/-- The top layer is the first to be placed. -/
theorem placed_top (a : Attributes) : Placed empty (empty.place a none) [] a none :=
  ⟨rfl, rfl, rfl, rfl, fun i hi _ => absurd hi (Nat.not_lt_zero i)⟩

/-- What settling some layers as children of `p` has done: what they and all below them hold is
appended, and no other layer that was there has got a new child. -/
structure Settled (l l' : Layout) (p : Nat) (nodes : List Node) : Prop where
  nodes : l'.nodes.toList = nodes
  size : l'.lastChild.size = l'.nodes.size
  other : ∀ i, i < l.nodes.size → i ≠ p → l'.lastOf i = l.lastOf i

/-- The nodes once the first of some new children of `p`, if any, has been linked. -/
def kept (l : Layout) (p : Nat) : List Layer → List Node
  | [] => l.nodes.toList
  | _ :: _ => l.linked p

/-- The nodes that settling some children of `p` gives. -/
def grown (l : Layout) (p : Nat) (cs : List Layer) : List Node :=
  l.kept p cs
    ++ ((Layer.siblingPlaces p l.nodes.size cs).flatMap Place.all).map Place.node

/-- A layer that has just been placed gets the nodes of its children. -/
theorem grown_of_placed {l l' : Layout} {before : List Node} {a : Attributes} {p : Option Nat}
    (h : Placed l l' before a p) (cs : List Layer) :
    l'.grown l.nodes.size cs
      = before ++ (Place.all ⟨.node a cs, l.nodes.size, p, none⟩).map Place.node := by
  have hlen : l'.nodes.size = l.nodes.size + 1 := by
    rw [← Array.length_toList, h.nodes, List.length_append, h.length]
    rfl
  rw [grown, Place.all_eq, Place.children, hlen]
  cases cs with
  | nil => simp [kept, Layer.children, Layer.siblingPlaces, h.nodes, Place.node, Layer.attributes]
  | cons c cs =>
    have hlinked : l'.linked l.nodes.size
        = before ++ [Place.node ⟨.node a (c :: cs), l.nodes.size, p, none⟩] := by
      rw [linked, h.last]
      simp only
      rw [h.nodes, ← h.length, modify_append_length, h.length, hlen]
      rfl
    rw [kept, hlinked, List.append_assoc]
    rfl

theorem ready_of_placed {l l' : Layout} {before : List Node} {a : Attributes} {p : Option Nat}
    (h : Placed l l' before a p) : l'.Ready l.nodes.size := by
  have hlen : l'.nodes.size = l.nodes.size + 1 := by
    rw [← Array.length_toList, h.nodes, List.length_append, h.length]
    rfl
  refine ⟨h.size, by omega, fun k hk => ?_⟩
  rw [h.last] at hk
  exact absurd hk (by simp)

/-- The next sibling of a child that has just been settled is linked from it. -/
theorem grown_of_settled {l l' : Layout} {c : Layer} {p : Nat}
    (h : Settled l l' p (l.linked p ++ (Place.all ⟨c, l.nodes.size, some p, none⟩).map Place.node))
    (hlast : l'.lastOf p = some l.nodes.size) (cs : List Layer) :
    l'.grown p cs = l.grown p (c :: cs) := by
  have hsize : l'.nodes.size = l.nodes.size + c.count := by
    rw [← Array.length_toList, h.nodes, List.length_append, length_linked, List.length_map,
      Place.length_all]
  obtain ⟨a, ds⟩ := c
  rw [grown, grown, Layer.siblingPlaces, List.flatMap_cons, List.map_append, hsize, kept]
  cases cs with
  | nil => simp [kept, Layer.siblingPlaces, h.nodes]
  | cons d rest =>
    have hlinked : l'.linked p = l.linked p ++ (Place.all ⟨.node a ds, l.nodes.size, some p,
        some (l.nodes.size + (Layer.node a ds).count)⟩).map Place.node := by
      rw [linked, hlast]
      simp only
      rw [h.nodes, Place.all_eq, List.map_cons, ← length_linked l p, modify_append_length,
        length_linked, hsize, Place.all_eq]
      rfl
    rw [kept, hlinked, firstOf_cons, List.append_assoc]

mutual

/-- **Settling a child** links it and appends the nodes of its places. -/
theorem settle_spec : ∀ (c : Layer) (p : Nat) (l : Layout), l.Ready p →
    Settled l (settle (some p) c l) p
        (l.linked p ++ (Place.all ⟨c, l.nodes.size, some p, none⟩).map Place.node) ∧
      (settle (some p) c l).lastOf p = some l.nodes.size
  | .node a cs, p, l, h => by
    obtain ⟨hplaced, hlast⟩ := placed_child h a
    have hready := ready_of_placed hplaced
    have hall := settleAll_spec cs l.nodes.size (l.place a (some p)) hready
    have hsize : (l.place a (some p)).nodes.size = l.nodes.size + 1 := size_nodes_place a (some p) l
    rw [settle]
    refine ⟨⟨?_, hall.size, fun i hi hne => ?_⟩, ?_⟩
    · rw [hall.nodes, grown_of_placed hplaced]
    · rw [hall.other i (by omega) (by omega), hplaced.other i hi (by simpa using hne.symm)]
    · rw [hall.other p (by have := h.lt; omega) (Nat.ne_of_lt h.lt), hlast]

/-- **Settling the children** of a layer appends the nodes of their places. -/
theorem settleAll_spec : ∀ (cs : List Layer) (p : Nat) (l : Layout), l.Ready p →
    Settled l (settleAll p cs l) p (l.grown p cs)
  | [], p, l, h => ⟨by simp [settleAll, grown, kept, Layer.siblingPlaces], h.size, fun _ _ _ => rfl⟩
  | c :: cs, p, l, h => by
    obtain ⟨hc, hlast⟩ := settle_spec c p l h
    have hsize : (settle (some p) c l).nodes.size = l.nodes.size + c.count := by
      rw [← Array.length_toList, hc.nodes, List.length_append, length_linked, List.length_map,
        Place.length_all]
    have hready : (settle (some p) c l).Ready p := by
      refine ⟨hc.size, by have := h.lt; omega, fun k hk => ?_⟩
      rw [hlast] at hk
      have hpos := c.count_pos
      have hk' : l.nodes.size = k := Option.some.inj hk
      omega
    have hcs := settleAll_spec cs p (settle (some p) c l) hready
    rw [settleAll]
    refine ⟨?_, hcs.size, fun i hi hne => ?_⟩
    · rw [hcs.nodes, grown_of_settled hc hlast]
    · rw [hcs.other i (by omega) hne, hc.other i hi hne]

end

end Layout

/-! ## The arena of a tree -/

/-- **The arena of a tree holds the nodes of its places, in pre-order.** -/
theorem Arena.nodes_ofLayer (l : Layer) :
    (Arena.ofLayer l).nodes.toList = (Place.top l).all.map Place.node := by
  obtain ⟨a, cs⟩ := l
  have hplaced := Layout.placed_top a
  have hcs := Layout.settleAll_spec cs 0 (Layout.empty.place a none)
    (Layout.ready_of_placed hplaced)
  have hfill := Layout.fill_cons (.node a cs) none 0 [] Layout.empty
  rw [Nat.add_zero, Layout.fill, Layout.settle] at hfill
  rw [Arena.ofLayer, hfill]
  exact hcs.nodes.trans (Layout.grown_of_placed hplaced cs)

end MapLayers
