import MapLayers.Proofs.Layout.Filling

/-!
# What an arena answers at a place

The functions of `Arena` follow links.  For the arena of a tree, each of them is read off the place
at the position that is asked about: `Arena.attributes_eq`, `Arena.parent_eq`,
`Arena.firstChild_eq`, `Arena.nextSibling_eq`, `Arena.role_eq` and `Arena.children_eq`.  Every
position of the arena has a place (`Arena.exists_place`), so these lemmas are all that later modules
need to know about links.

The children need a loop, from the first child along the links to the next sibling, with the number
of layers for a bound.  `Arena.Row` says what is found along these links without a bound: some
layers, and then no more.  The links below a layer run through its children in document order
(`Arena.row_children`), and there are no more children than layers, so the loop lists all of them.

The first part is about parents and siblings of places, before any arena: siblings stand in document
order (`Place.pairwise_siblings`), children after their parents
(`Place.position_lt_of_mem_children`), and every place but the top is a child of another
(`Place.eq_or_mem_children`).
-/

set_option autoImplicit false

namespace MapLayers

namespace Place

/-! ## Parents and siblings of a place -/

variable {q c : Place}

theorem siblings_position_le {parent : Nat} : ∀ {cs : List Layer} {k : Nat},
    c ∈ Layer.siblingPlaces parent k cs → k ≤ c.position
  | [], _, h => by simp [Layer.siblingPlaces] at h
  | d :: ds, k, h => by
    rw [Layer.siblingPlaces, List.mem_cons] at h
    rcases h with rfl | h
    · exact Nat.le_refl _
    · exact Nat.le_trans (Nat.le_add_right _ _) (siblings_position_le h)

/-- Siblings stand in document order. -/
theorem pairwise_siblings (parent : Nat) (cs : List Layer) (k : Nat) :
    ((Layer.siblingPlaces parent k cs).map position).Pairwise (· < ·) := by
  induction cs generalizing k with
  | nil => exact .nil
  | cons c cs ih =>
    rw [Layer.siblingPlaces, List.map_cons]
    refine List.pairwise_cons.mpr ⟨?_, ih _⟩
    intro j hj
    obtain ⟨d, hd, rfl⟩ := List.mem_map.mp hj
    have hle := siblings_position_le hd
    have hpos := c.count_pos
    show k < d.position
    omega

/-- Children stand after their parents. -/
theorem position_lt_of_mem_children (h : c ∈ q.children) : q.position < c.position :=
  siblings_position_le h

/-- Every place but the top is among the children of another. -/
theorem eq_or_mem_children {r : Place} (h : r ∈ q.all) :
    r = q ∨ ∃ s ∈ q.all, r ∈ s.children := by
  refine all_induction (motive := fun r => r = q ∨ ∃ s ∈ q.all, r ∈ s.children) q
    (Or.inl rfl) ?_ r h
  intro s hs _ d hd
  exact Or.inr ⟨s, hs, hd⟩

theorem parent_top_iff {l : Layer} (h : q ∈ (top l).all) : q.parent = none ↔ q.position = 0 := by
  rcases eq_or_mem_children h with rfl | ⟨s, -, hs⟩
  · exact ⟨fun _ => rfl, fun _ => rfl⟩
  · have hlt := position_lt_of_mem_children hs
    rw [parent_of_mem_children hs]
    exact ⟨fun h => by simp at h, fun h => by omega⟩

theorem siblings_nextSibling {parent : Nat} : ∀ {cs : List Layer} {k : Nat},
    c ∈ Layer.siblingPlaces parent k cs →
      (c.nextSibling = some (c.position + c.layer.count) ∧
          c.position + c.layer.count < k + Layer.countAll cs) ∨
        (c.nextSibling = none ∧ c.position + c.layer.count = k + Layer.countAll cs)
  | [], _, h => by simp [Layer.siblingPlaces] at h
  | [d], k, h => by
    simp only [Layer.siblingPlaces, List.mem_singleton] at h
    subst h
    exact Or.inr ⟨rfl, by simp [Layer.countAll]⟩
  | d :: e :: es, k, h => by
    rw [Layer.siblingPlaces, List.mem_cons] at h
    rw [Layer.countAll, ← Nat.add_assoc]
    rcases h with rfl | h
    · have hpos := e.count_pos
      refine Or.inl ⟨rfl, ?_⟩
      rw [Layer.countAll]
      exact Nat.lt_add_of_pos_right (by omega)
    · exact siblings_nextSibling h

/-- The next sibling of a child stands after all below the child, and within the subtree of the
parent; when there is none, that subtree ends with that of the child. -/
theorem nextSibling_of_mem_children (h : c ∈ q.children) :
    (c.nextSibling = some (c.position + c.layer.count) ∧
        c.position + c.layer.count < q.position + q.layer.count) ∨
      (c.nextSibling = none ∧ c.position + c.layer.count = q.position + q.layer.count) := by
  have hend : q.position + 1 + Layer.countAll q.layer.children = q.position + q.layer.count := by
    obtain ⟨⟨a, cs⟩, k, p, nx⟩ := q
    simp only [Layer.children, Layer.count]
    omega
  rw [← hend]
  exact siblings_nextSibling h

theorem role_eq_top_iff : q.node.role = .top ↔ q.parent = none := by
  obtain ⟨⟨a, cs⟩, k, p, nx⟩ := q
  cases p <;> cases cs <;> simp [node, Node.role, Layer.children]

theorem role_eq_data_iff : q.node.role = .data ↔ q.parent ≠ none ∧ q.layer.children = [] := by
  obtain ⟨⟨a, cs⟩, k, p, nx⟩ := q
  cases p <;> cases cs <;> simp [node, Node.role, Layer.children]

/-- The subtree of a place ends within that of any place above. -/
theorem end_le {r : Place} (h : r ∈ q.all) :
    r.position + r.layer.count ≤ q.position + q.layer.count := by
  have hpos := r.layer.count_pos
  obtain ⟨s, hs, hlast⟩ := exists_of_position (q := r) (k := r.position + r.layer.count - 1)
    (by omega) (by omega)
  have hlt := (position_mem_all (mem_all_trans h hs)).2
  omega

end Place

namespace Arena

variable {l : Layer} {q : Place}

/-! ## Reading at a place

One lemma for each field of a node. -/

theorem node_eq (h : q ∈ (Place.top l).all) : (ofLayer l).nodes[q.position]? = some q.node := by
  rw [← Array.getElem?_toList, nodes_ofLayer, List.getElem?_map]
  have hq := (Place.getElem_of_mem h).1
  rw [show q.position - (Place.top l).position = q.position from rfl] at hq
  rw [hq]
  rfl

/-- Every position of the arena has its place. -/
theorem exists_place {k : Nat} (h : k < (ofLayer l).size) :
    ∃ q ∈ (Place.top l).all, q.position = k := by
  rw [size_ofLayer] at h
  exact Place.exists_of_position (Nat.zero_le k) (by simpa [Place.top] using h)

theorem position_lt_size (h : q ∈ (Place.top l).all) : q.position < (ofLayer l).size := by
  rw [size_ofLayer]
  simpa [Place.top] using (Place.position_mem_all h).2

theorem attributes_eq (h : q ∈ (Place.top l).all) :
    (ofLayer l).attributes q.position = q.layer.attributes := by
  rw [attributes, node_eq h]
  rfl

theorem parent_eq (h : q ∈ (Place.top l).all) : (ofLayer l).parent q.position = q.parent := by
  rw [parent, node_eq h]
  rfl

theorem firstChild_eq (h : q ∈ (Place.top l).all) :
    (ofLayer l).firstChild q.position = firstOf (q.position + 1) q.layer.children := by
  rw [firstChild, node_eq h]
  rfl

theorem nextSibling_eq (h : q ∈ (Place.top l).all) :
    (ofLayer l).nextSibling q.position = q.nextSibling := by
  rw [nextSibling, node_eq h]
  rfl

theorem role_eq (h : q ∈ (Place.top l).all) : (ofLayer l).role q.position = q.node.role := by
  rw [role, node_eq h]
  rfl

/-! ## Children

The links from the first child on run through the children, as the next sibling of a place is the
place of the next child. -/

/-- Following the links from a layer to its next sibling gives some layers and then ends. -/
inductive Row (t : Arena) : Option Nat → List Nat → Prop
  | last : Row t none []
  | next {k : Nat} {ks : List Nat} (h : Row t (t.nextSibling k) ks) : Row t (some k) (k :: ks)

/-- With enough steps, all siblings are listed. -/
theorem Row.siblingsFrom_eq {t : Arena} {first : Option Nat} {ks : List Nat} (h : t.Row first ks) :
    ∀ {n : Nat}, ks.length ≤ n → t.siblingsFrom n first = ks := by
  induction h with
  | last => intro n _; cases n <;> rfl
  | @next k ks _ ih =>
    intro n hn
    cases n with
    | zero => simp at hn
    | succ n => rw [siblingsFrom, ih (Nat.le_of_succ_le_succ hn)]

theorem row_siblings {parent : Nat} : ∀ (cs : List Layer) (k : Nat),
    (∀ c ∈ Layer.siblingPlaces parent k cs, c ∈ (Place.top l).all) →
      (ofLayer l).Row (firstOf k cs) ((Layer.siblingPlaces parent k cs).map Place.position)
  | [], _, _ => .last
  | c :: cs, k, h => by
    rw [Layer.siblingPlaces] at h ⊢
    have hnext := nextSibling_eq (h _ List.mem_cons_self)
    have hrest := row_siblings cs (k + c.count) fun d hd => h d (List.mem_cons_of_mem _ hd)
    rw [firstOf_cons, List.map_cons]
    refine .next ?_
    rw [hnext]
    exact hrest

/-- **The links below a layer run through its children, in document order.** -/
theorem row_children (h : q ∈ (Place.top l).all) :
    (ofLayer l).Row ((ofLayer l).firstChild q.position) (q.children.map Place.position) := by
  rw [firstChild_eq h]
  exact row_siblings _ _ fun c hc => Place.mem_all_of_mem_children h hc

theorem length_le_countAll : ∀ cs : List Layer, cs.length ≤ Layer.countAll cs
  | [] => Nat.le_refl _
  | c :: cs => by
    have hpos := c.count_pos
    have htail := length_le_countAll cs
    rw [List.length_cons, Layer.countAll]
    omega

theorem length_children_le (h : q ∈ (Place.top l).all) :
    (q.children.map Place.position).length ≤ (ofLayer l).size := by
  have hend := Place.end_le h
  have hlen : (q.children.map Place.position).length = q.layer.children.length := by
    rw [← Place.layers_children q, List.length_map, List.length_map]
  obtain ⟨⟨a, cs⟩, k, p, nx⟩ := q
  have hle := length_le_countAll cs
  simp only [Place.top, Layer.count, Layer.children] at hend hlen
  rw [hlen, size_ofLayer]
  omega

/-- **The children of a layer are listed in document order.** -/
theorem children_eq (h : q ∈ (Place.top l).all) :
    (ofLayer l).children q.position = q.children.map Place.position :=
  (row_children h).siblingsFrom_eq (length_children_le h)

end Arena

end MapLayers
