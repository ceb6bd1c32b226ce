import Mathlib.Data.List.Nodup
import MapLayers.Evaluation
import MapLayers.Proofs.Flat.Correspondence
import MapLayers.Proofs.Layout.Encoding

/-!
# Flat lists that describe a tree

A tree can be written as a flat list with an entry for each layer, under the name of its parent.
The entries may come in any order that keeps siblings in order: children may precede their parents,
and the subtrees of different layers may be mixed.  A sprout says which entry stands for which layer
(`Sprout.Lists`); its positions are in no particular order, as the entries may be anywhere.

Nesting such a list gives the tree, whatever the order, as long as the names of layers with children
are not used again (`Layer.Referable`, `Entry.nest_flattens`).  Other names may be missing or be
there twice, since nothing refers to them.

* An entry is that of a topmost layer, without a parent, or that of a child, under a name that no
  other entry has (`Entry.Arranged.entry_cases`); so every reference is right.
* The entries that refer to the entry of a layer are those of its children
  (`Entry.Arranged.children_eq`), in order because siblings are.
* Hence the list of parents has the forest of the tree (`Entry.Arranged.isForest`), and the layers
  at its positions are the tree (`Sprout.ListsAll.layers_eq`).

`Entry.Flattens` has two ways to write a tree down: with all of its layers, or without its top
layer, which is then made up from the attributes that are given.
-/

set_option autoImplicit false

namespace MapLayers

namespace Sprout

/-- The sprouts at the children of a position. -/
def children : Sprout → List Sprout
  | .node _ ts => ts

mutual

/-- The sprouts that start in a sprout, in pre-order. -/
def subs : Sprout → List Sprout
  | .node i ts => .node i ts :: subsAll ts

/-- The sprouts that start in some sprouts. -/
def subsAll : List Sprout → List Sprout
  | [] => []
  | t :: ts => t.subs ++ subsAll ts

end

mutual

/-- At the positions of the sprout are the entries of the layers of a tree, each under the name of
its parent, and siblings are in order. -/
def Lists (es : List Entry) (parent : Option String) : Sprout → Layer → Prop
  | .node i ts, .node a cs =>
    es[i]? = some ⟨a, parent⟩ ∧ (ts.map position).Pairwise (· < ·) ∧ ListsAll es a.name ts cs

/-- So for some trees with a common parent. -/
def ListsAll (es : List Entry) (parent : Option String) : List Sprout → List Layer → Prop
  | [], [] => True
  | t :: ts, c :: cs => t.Lists es parent c ∧ ListsAll es parent ts cs
  | _, _ => False

end

mutual

def decidableLists (es : List Entry) : ∀ (parent : Option String) (t : Sprout) (l : Layer),
    Decidable (t.Lists es parent l)
  | _, .node _ ts, .node a cs =>
    have := decidableListsAll es a.name ts cs
    inferInstanceAs (Decidable (_ ∧ _ ∧ _))

def decidableListsAll (es : List Entry) : ∀ (parent : Option String) (ts : List Sprout)
    (cs : List Layer), Decidable (ListsAll es parent ts cs)
  | _, [], [] => isTrue trivial
  | parent, t :: ts, c :: cs =>
    have := decidableLists es parent t c
    have := decidableListsAll es parent ts cs
    inferInstanceAs (Decidable (_ ∧ _))
  | _, [], _ :: _ => isFalse id
  | _, _ :: _, [] => isFalse id

end

instance (es : List Entry) (parent : Option String) (ts : List Sprout) (cs : List Layer) :
    Decidable (ListsAll es parent ts cs) := decidableListsAll es parent ts cs

variable {es : List Entry} {parent : Option String} {t u v : Sprout} {ts : List Sprout}
  {l : Layer} {cs : List Layer} {under : Nat → List Nat}

/-! ## The sprouts in a sprout

A sprout stands for a layer, and so does every sprout that starts in it.  What is said about all
layers of a tree is therefore said about all sprouts in one sprout. -/

mutual

theorem map_position_subs : ∀ t : Sprout, t.subs.map position = t.positions
  | .node i ts => by
    rw [subs, positions, List.map_cons, map_position_subsAll ts]
    rfl

theorem map_position_subsAll : ∀ ts : List Sprout, (subsAll ts).map position = positionsAll ts
  | [] => rfl
  | t :: ts => by
    rw [subsAll, positionsAll, List.map_append, map_position_subs t, map_position_subsAll ts]

end

mutual

theorem mem_subs_cases : ∀ {t : Sprout}, u ∈ t.subs → u = t ∨ ∃ v ∈ t.subs, u ∈ v.children
  | .node i ts, h => by
    rw [subs, List.mem_cons] at h
    rcases h with rfl | h
    · exact Or.inl rfl
    · right
      rw [subs]
      rcases mem_subsAll_cases h with hts | ⟨v, hv, huv⟩
      · exact ⟨_, List.mem_cons_self, hts⟩
      · exact ⟨v, List.mem_cons_of_mem _ hv, huv⟩

/-- What starts in some sprouts is one of them, or a child. -/
theorem mem_subsAll_cases : ∀ {ts : List Sprout}, u ∈ subsAll ts →
    u ∈ ts ∨ ∃ v ∈ subsAll ts, u ∈ v.children
  | [], h => by simp [subsAll] at h
  | t :: ts, h => by
    rw [subsAll, List.mem_append] at h
    rw [subsAll]
    rcases h with h | h
    · rcases mem_subs_cases h with rfl | ⟨v, hv, huv⟩
      · exact Or.inl List.mem_cons_self
      · exact Or.inr ⟨v, List.mem_append_left _ hv, huv⟩
    · rcases mem_subsAll_cases h with hts | ⟨v, hv, huv⟩
      · exact Or.inl (List.mem_cons_of_mem t hts)
      · exact Or.inr ⟨v, List.mem_append_right _ hv, huv⟩

end

mutual

theorem follows_of_subs : ∀ {t : Sprout},
    (∀ u ∈ t.subs, u.children.map position = under u.position) → t.Follows under
  | .node i ts, h => by
    rw [subs, List.forall_mem_cons] at h
    exact ⟨h.1, followAll_of_subsAll h.2⟩

/-- Sprouts follow a function when every sprout in them does so at its start. -/
theorem followAll_of_subsAll : ∀ {ts : List Sprout},
    (∀ u ∈ subsAll ts, u.children.map position = under u.position) → FollowAll under ts
  | [], _ => trivial
  | t :: ts, h => by
    rw [subsAll, List.forall_mem_append] at h
    exact ⟨follows_of_subs h.1, followAll_of_subsAll h.2⟩

end

/-! ## Entries for the layers of a tree -/

/-- The entry at the start is that of the topmost layer. -/
theorem Lists.entry (h : t.Lists es parent l) : es[t.position]? = some ⟨l.attributes, parent⟩ := by
  obtain ⟨i, ts⟩ := t
  obtain ⟨a, cs⟩ := l
  exact h.1

theorem Lists.pairwise (h : t.Lists es parent l) : (t.children.map position).Pairwise (· < ·) := by
  obtain ⟨i, ts⟩ := t
  obtain ⟨a, cs⟩ := l
  exact h.2.1

theorem Lists.children (h : t.Lists es parent l) :
    ListsAll es l.attributes.name t.children l.children := by
  obtain ⟨i, ts⟩ := t
  obtain ⟨a, cs⟩ := l
  exact h.2.2

theorem ListsAll.exists_of_mem : ∀ {ts : List Sprout} {cs : List Layer}, ListsAll es parent ts cs →
    t ∈ ts → ∃ c ∈ cs, t.Lists es parent c
  | u :: us, d :: ds, h, ht => by
    rcases List.mem_cons.mp ht with rfl | ht
    · exact ⟨d, List.mem_cons_self, h.1⟩
    · obtain ⟨c, hc, hlists⟩ := ListsAll.exists_of_mem h.2 ht
      exact ⟨c, List.mem_cons_of_mem d hc, hlists⟩

theorem ListsAll.length_eq : ∀ {ts : List Sprout} {cs : List Layer}, ListsAll es parent ts cs →
    ts.length = cs.length
  | [], [], _ => rfl
  | _ :: _, _ :: _, h => by rw [List.length_cons, List.length_cons, ListsAll.length_eq h.2]

mutual

theorem Lists.exists_of_mem_subs : ∀ {t : Sprout} {l : Layer} {parent : Option String},
    t.Lists es parent l → u ∈ t.subs → ∃ s ∈ l.preorder, ∃ p, u.Lists es p s
  | .node i ts, .node a cs, parent, h, hu => by
    rw [subs, List.mem_cons] at hu
    rw [Layer.preorder]
    rcases hu with rfl | hu
    · exact ⟨_, List.mem_cons_self, parent, h⟩
    · obtain ⟨s, hs, hlists⟩ := ListsAll.exists_of_mem_subs h.2.2 hu
      exact ⟨s, List.mem_cons_of_mem _ hs, hlists⟩

/-- Every sprout in them stands for a layer of the trees. -/
theorem ListsAll.exists_of_mem_subs : ∀ {ts : List Sprout} {cs : List Layer}
    {parent : Option String}, ListsAll es parent ts cs → u ∈ subsAll ts →
      ∃ s ∈ Layer.preorderAll cs, ∃ p, u.Lists es p s
  | t :: ts, c :: cs, parent, h, hu => by
    rw [subsAll, List.mem_append] at hu
    rw [Layer.preorderAll]
    rcases hu with hu | hu
    · obtain ⟨s, hs, hlists⟩ := Lists.exists_of_mem_subs h.1 hu
      exact ⟨s, List.mem_append_left _ hs, hlists⟩
    · obtain ⟨s, hs, hlists⟩ := ListsAll.exists_of_mem_subs h.2 hu
      exact ⟨s, List.mem_append_right _ hs, hlists⟩

end

/-! ## What the entries say about the tree -/

mutual

theorem Lists.map_attributesAt : ∀ {t : Sprout} {l : Layer} {parent : Option String},
    t.Lists es parent l →
      t.positions.map (Entry.attributesAt es) = l.preorder.map Layer.attributes
  | .node i ts, .node a cs, parent, h => by
    have ha : Entry.attributesAt es i = a := by rw [Entry.attributesAt, Entry.getD_of_getElem h.1]
    rw [positions, Layer.preorder, List.map_cons, List.map_cons, ha,
      ListsAll.map_attributesAt h.2.2]
    rfl

/-- The attributes of the entries are those of the layers. -/
theorem ListsAll.map_attributesAt : ∀ {ts : List Sprout} {cs : List Layer}
    {parent : Option String}, ListsAll es parent ts cs →
      (positionsAll ts).map (Entry.attributesAt es)
        = (Layer.preorderAll cs).map Layer.attributes
  | [], [], _, _ => rfl
  | t :: ts, c :: cs, parent, h => by
    rw [positionsAll, Layer.preorderAll, List.map_append, List.map_append,
      Lists.map_attributesAt h.1, ListsAll.map_attributesAt h.2]

end

mutual

theorem Lists.layer_eq : ∀ {t : Sprout} {l : Layer} {parent : Option String},
    t.Lists es parent l → t.layer (Entry.attributesAt es) = l
  | .node i ts, .node a cs, parent, h => by
    rw [layer, Entry.attributesAt, Entry.getD_of_getElem h.1, ListsAll.layers_eq h.2.2]

/-- **The layers at the positions are the trees.** -/
theorem ListsAll.layers_eq : ∀ {ts : List Sprout} {cs : List Layer} {parent : Option String},
    ListsAll es parent ts cs → layers (Entry.attributesAt es) ts = cs
  | [], [], _, _ => rfl
  | t :: ts, c :: cs, parent, h => by
    rw [layers, Lists.layer_eq h.1, ListsAll.layers_eq h.2]

end

end Sprout

/-- A layer with children among these has a name, and no other of these has that name. -/
def Layer.Referable (ls : List Layer) : Prop :=
  ∀ s ∈ ls, s.children ≠ [] → s.attributes.name ≠ none ∧
    (ls.countP fun u => u.attributes.name = s.attributes.name) = 1

instance (ls : List Layer) : Decidable (Layer.Referable ls) :=
  inferInstanceAs (Decidable (∀ s ∈ ls, _ → _ ∧ _))

theorem Layer.Referable.exists_name {ls : List Layer} {s c : Layer} (h : Layer.Referable ls)
    (hs : s ∈ ls) (hc : c ∈ s.children) : ∃ n, s.attributes.name = some n ∧
      (ls.countP fun u => u.attributes.name = some n) = 1 := by
  obtain ⟨hname, hcount⟩ := h s hs (List.ne_nil_of_mem hc)
  obtain ⟨n, hn⟩ := Option.ne_none_iff_exists'.mp hname
  rw [hn] at hcount
  exact ⟨n, hn, hcount⟩

namespace Entry

/-- A flat list consists of an entry for each layer of some trees, in some order: the sprouts say at
which positions. -/
structure Arranged (es : List Entry) (ts : List Sprout) (cs : List Layer) : Prop where
  /-- At its position, each layer has an entry with its attributes, under the name of its parent. -/
  lists : Sprout.ListsAll es none ts cs
  /-- The topmost layers are in order. -/
  starts : (ts.map Sprout.position).Pairwise (· < ·)
  /-- There are no other entries. -/
  once : (Sprout.positionsAll ts).Perm (List.range es.length)

variable {es : List Entry} {ts : List Sprout} {cs : List Layer} {e p : Entry} {n : String}
  {u : Sprout} {i j : Nat}

/-! ## References in an arranged list

Every reference of an arranged list is to the entry of a layer with children, the name of which is
not used again.  So the reference is right, and it leads to the position that the sprout has for
that layer. -/

/-- Only one position has an entry of a name that is held once. -/
theorem eq_of_holders (h : holders es n = 1) (hi : es[i]? = some e) (hj : es[j]? = some p)
    (he : e.attributes.name = some n) (hp : p.attributes.name = some n) : i = j := by
  have hlen : (positionsNamed 0 es n).length = 1 := length_positionsNamed.trans h
  obtain ⟨r, hr⟩ := List.length_eq_one_iff.mp hlen
  have hmem : ∀ {k d}, es[k]? = some d → d.attributes.name = some n → k = r := by
    intro k d hk hd
    have hnamed := mem_positionsNamed.mpr ⟨k, d, (Nat.zero_add k).symm, hk, hd⟩
    rwa [hr, List.mem_singleton] at hnamed
  exact (hmem hi he).trans (hmem hj hp).symm

namespace Arranged

section

variable (h : Arranged es ts cs)

include h

/-- As many entries have a name as layers. -/
theorem holders_eq (n : String) : holders es n
    = (Layer.preorderAll cs).countP fun s => s.attributes.name = some n := by
  have hentries : es.map Entry.attributes = (List.range es.length).map (attributesAt es) := by
    refine List.ext_getElem? fun k => ?_
    rw [List.getElem?_map, List.getElem?_map]
    by_cases hk : k < es.length
    · rw [getD_of_lt hk, List.getElem?_range hk]
      rfl
    · rw [List.getElem?_eq_none (Nat.le_of_not_lt hk), List.getElem?_eq_none (by simpa using hk)]
      rfl
  have hperm : (es.map Entry.attributes).Perm ((Layer.preorderAll cs).map Layer.attributes) := by
    rw [hentries, ← h.lists.map_attributesAt]
    exact (h.once.map (attributesAt es)).symm
  have hcount := hperm.countP_eq fun a => decide (a.name = some n)
  rwa [List.countP_map, List.countP_map] at hcount

theorem nodup : ((Sprout.subsAll ts).map Sprout.position).Nodup := by
  rw [Sprout.map_position_subsAll, h.once.nodup_iff]
  exact List.nodup_range

theorem exists_sub (hi : i < es.length) : ∃ u ∈ Sprout.subsAll ts, u.position = i := by
  have hmem : i ∈ Sprout.positionsAll ts := h.once.mem_iff.mpr (List.mem_range.mpr hi)
  rw [← Sprout.map_position_subsAll, List.mem_map] at hmem
  exact hmem

variable (hr : Layer.Referable (Layer.preorderAll cs))

include hr

/-- **An entry is that of a topmost layer, without a parent, or that of a child**, under a name that
no other entry has. -/
theorem entry_cases (hi : es[i]? = some e) :
    e.parent = none ∧ i ∈ ts.map Sprout.position ∨
      ∃ u ∈ Sprout.subsAll ts, i ∈ u.children.map Sprout.position ∧
        ∃ p n, es[u.position]? = some p ∧ p.attributes.name = some n ∧ e.parent = some n ∧
          holders es n = 1 := by
  obtain ⟨v, hv, rfl⟩ := h.exists_sub (List.getElem?_eq_some_iff.mp hi).1
  rcases Sprout.mem_subsAll_cases hv with hts | ⟨u, hu, hvu⟩
  · left
    obtain ⟨c, -, hlists⟩ := h.lists.exists_of_mem hts
    rw [hlists.entry] at hi
    cases hi
    exact ⟨rfl, List.mem_map_of_mem hts⟩
  · right
    obtain ⟨s, hs, parent, hlists⟩ := h.lists.exists_of_mem_subs hu
    obtain ⟨c, hc, hchild⟩ := hlists.children.exists_of_mem hvu
    obtain ⟨n, hn, hcount⟩ := hr.exists_name hs hc
    rw [hchild.entry] at hi
    cases hi
    refine ⟨u, hu, List.mem_map_of_mem hvu, _, n, hlists.entry, hn, hn, ?_⟩
    rw [h.holders_eq, hcount]

theorem resolves (he : e ∈ es) : Resolves es e := by
  intro name hname
  obtain ⟨i, hi⟩ := List.mem_iff_getElem?.mp he
  rcases h.entry_cases hr hi with ⟨hnone, -⟩ | ⟨-, -, -, p, n, -, -, hparent, hone⟩
  · rw [hnone] at hname
    cases hname
  · rw [hparent] at hname
    cases hname
    exact hone

/-- The entries of the topmost layers are those without a parent. -/
theorem starts_eq : ts.map Sprout.position = parentless es := by
  refine h.starts.eq_of_mem_iff (List.pairwise_lt_range.filter _) fun j => ?_
  rw [mem_parentless]
  refine ⟨?_, ?_⟩
  · intro hj
    obtain ⟨t, ht, rfl⟩ := List.mem_map.mp hj
    obtain ⟨c, -, hlists⟩ := h.lists.exists_of_mem ht
    exact ⟨_, hlists.entry, rfl⟩
  · rintro ⟨e, he, hnone⟩
    rcases h.entry_cases hr he with ⟨-, hmem⟩ | ⟨-, -, -, p, n, -, -, hparent, -⟩
    · exact hmem
    · rw [hnone] at hparent
      cases hparent

/-- The entries of the children of a layer are those that refer to its entry. -/
theorem children_eq (hu : u ∈ Sprout.subsAll ts) :
    u.children.map Sprout.position = referring es u.position := by
  obtain ⟨s, hs, parent, hlists⟩ := h.lists.exists_of_mem_subs hu
  refine hlists.pairwise.eq_of_mem_iff (List.pairwise_lt_range.filter _) fun j => ?_
  rw [mem_referring]
  refine ⟨?_, ?_⟩
  · intro hj
    obtain ⟨v, hv, rfl⟩ := List.mem_map.mp hj
    obtain ⟨c, hc, hchild⟩ := hlists.children.exists_of_mem hv
    obtain ⟨n, hn, -⟩ := hr.exists_name hs hc
    exact ⟨_, _, n, hchild.entry, hlists.entry, hn, hn⟩
  · rintro ⟨e, p, n, he, hp, hparent, hname⟩
    rcases h.entry_cases hr he with ⟨hnone, -⟩ | ⟨v, hv, hj, q, m, hq, hqname, hm, hone⟩
    · rw [hnone] at hparent
      cases hparent
    · rw [hparent] at hm
      cases hm
      -- both sprouts start at the one entry of that name
      have hposition := eq_of_holders hone hq hp hqname hname
      have heq := List.inj_on_of_nodup_map h.nodup hv hu hposition
      exact heq ▸ hj

variable {parents : List (Option Nat)} (hparents : parentPositions es = .ok parents)

include hparents

/-- **The list of parents has the forest of the trees.** -/
theorem isForest : IsForest parents ts where
  starts := by rw [h.starts_eq hr, positionsUnder_eq_parentless hparents]
  follow := by
    rw [childrenOf_eq_referring hparents]
    exact Sprout.followAll_of_subsAll fun u hu => h.children_eq hr hu

/-- Nesting gathers the topmost layers. -/
theorem nest_eq_gather (hne : ts ≠ []) (top : Option Attributes) :
    nest top es = .ok (gather es parents top (ts.map Sprout.position)) := by
  have hforest := h.isForest hr hparents
  have hlen := length_parents hparents
  have hnonempty : es ≠ [] := by
    rintro rfl
    have hempty := h.once.eq_nil
    obtain ⟨t, ht⟩ := List.exists_mem_of_ne_nil ts hne
    have hmem := Sprout.mem_positionsAll_of_mem (List.mem_map_of_mem (f := Sprout.position) ht)
    rw [hempty] at hmem
    cases hmem
  have hroots : ¬ (positionsUnder parents none).isEmpty = true := by
    rw [← hforest.starts]
    simpa using hne
  have hall : (Sweep.ofParents parents).firstUnmarked = none := by
    rw [firstUnmarked_eq_none_iff]
    intro i hi
    rw [← hforest.mem_iff, h.once.mem_iff, List.mem_range, ← hlen]
    exact hi
  rw [nest_of_ok hnonempty hparents, if_neg hroots, hall, hforest.starts]

end

end Arranged

/-- A flat list describes a tree, given the attributes for a top layer that has to be made up. -/
inductive Flattens (top : Option Attributes) (es : List Entry) (l : Layer) : Prop
  /-- There is an entry for every layer. -/
  | whole {t : Sprout} : Arranged es [t] [l] → Layer.Referable l.preorder → Flattens top es l
  /-- There is an entry for every layer but the top one, which has no name and several children, and
  whose attributes are given. -/
  | below {ts : List Sprout} : l.attributes.name = none → 2 ≤ l.children.length →
    top = some l.attributes → Arranged es ts l.children →
      Layer.Referable (Layer.preorderAll l.children) → Flattens top es l

variable {top : Option Attributes} {l : Layer}

/-- **Flat lists encode trees**, whatever the order of the entries. -/
theorem nest_flattens (h : Flattens top es l) : nest top es = .ok l ∧
    ∀ s top', (LayerInput.flat es).evaluate top s = (LayerInput.nested l).evaluate top' s := by
  have hnest : nest top es = .ok l := by
    cases h with
    | @whole t h href =>
      have hr : Layer.Referable (Layer.preorderAll [l]) := by
        rwa [Layer.preorderAll, Layer.preorderAll, List.append_nil]
      obtain ⟨parents, hparents⟩ := exists_parentPositions_iff.mpr fun _ he => h.resolves hr he
      have hforest := h.isForest hr hparents
      rw [h.nest_eq_gather hr hparents (List.cons_ne_nil _ _), List.map_singleton,
        gather_single hforest (length_parents hparents), h.lists.1.layer_eq]
    | @below ts hname hlen htop h hr =>
      obtain ⟨parents, hparents⟩ := exists_parentPositions_iff.mpr fun _ he => h.resolves hr he
      have hforest := h.isForest hr hparents
      have hlength := h.lists.length_eq
      have hmadeUp : madeUpTop top = l.attributes := by
        rw [htop, madeUpTop, Option.getD_some, ← hname]
      rw [h.nest_eq_gather hr hparents (List.ne_nil_of_length_pos (by omega)),
        gather_several hforest (length_parents hparents) (by omega), hmadeUp,
        ← Sprout.layers_eq_map, h.lists.layers_eq, Layer.node_attributes_children]
  refine ⟨hnest, fun s top' => ?_⟩
  rw [LayerInput.evaluate, LayerInput.evaluate, LayerInput.nest, hnest]
  rfl

/-- The sample with nested groups, the deepest layer first and the top layer in the middle. -/
def shuffledRouting : List Entry :=
  [.ofLayer (some "G2") (Samples.plainData "D3"), .ofLayer (some "G") (Samples.plainData "D1"),
    .ofLayer none (.described "top"), .ofLayer (some "G") (Samples.plainData "D2"),
    .ofLayer (some "top") (.described "G"), .ofLayer (some "G") (.described "G2")]

/-- The sample service without its top layer, data layers before and after their groups. -/
def shuffledService : List Entry :=
  [.ofLayer (some "roads") Samples.highways, .ofLayer (some "water") Samples.rivers,
    .ofLayer none Samples.roads, .ofLayer none Samples.water,
    .ofLayer (some "roads") Samples.paths, .ofLayer none Samples.elevation,
    .ofLayer (some "water") Samples.archive]

/-- Both samples come out as they are. -/
theorem nest_shuffled :
    (Flattens none shuffledRouting Samples.routing ∧
      nest none shuffledRouting = .ok Samples.routing) ∧
    (Flattens (some Samples.serviceTop) shuffledService Samples.service ∧
      nest (some Samples.serviceTop) shuffledService = .ok Samples.service) := by
  have hrouting : Arranged shuffledRouting
      [.node 2 [.node 4 [.node 1 [], .node 3 [], .node 5 [.node 0 []]]]] [Samples.routing] :=
    ⟨by decide +kernel, by decide, by decide +kernel⟩
  have hservice : Arranged shuffledService
      [.node 2 [.node 0 [], .node 4 []], .node 3 [.node 1 [], .node 6 []], .node 5 []]
      Samples.service.children :=
    ⟨by decide +kernel, by decide, by decide +kernel⟩
  have hwhole : Flattens none shuffledRouting Samples.routing :=
    .whole hrouting (by decide +kernel)
  have hbelow : Flattens (some Samples.serviceTop) shuffledService Samples.service :=
    .below rfl (by decide) rfl hservice (by decide +kernel)
  exact ⟨⟨hwhole, (nest_flattens hwhole).1⟩, ⟨hbelow, (nest_flattens hbelow).1⟩⟩

end Entry

end MapLayers
