import Mathlib.Data.List.Sort
import MapLayers.Proofs.Flat.Outcome
import MapLayers.Samples

/-!
# Nodes and entries

Nesting moves the attributes of the entries out of slots, and would not notice an empty one.  That
every entry has one node of the result, below the node of the entry that it refers to, is stated
with a forest of positions, from which the layers are made by putting the attributes of the entries
at their positions (`Entry.Nests`).  Since it is positions that correspond to nodes, entries may
well be equal.

The statement is about names again.  The children of an entry are the entries that refer to it, in
the order of the list (`Entry.referring`), and the roots are the entries without a parent
(`Entry.parentless`); that the rows by position, from which nesting works, are the same is
`Entry.childrenOf_eq_referring`.  A list with one root has that root for its top layer; one with
several has them below a top layer that is made up, with the attributes that are given for it, if
any (`Entry.gather_single`, `Entry.gather_several`).

Together: nesting loses, repeats and reorders nothing (`Entry.nests_of_nest`).
-/

set_option autoImplicit false

namespace MapLayers

namespace Entry

/-- The attributes of the entry at a position. -/
def attributesAt (es : List Entry) (i : Nat) : Attributes := (es.getD i {}).attributes

/-- The positions, in increasing order, of the entries whose parent is the name of the one at the
given position. -/
def referring (es : List Entry) (i : Nat) : List Nat :=
  (List.range es.length).filter fun j =>
    (es.getD j {}).parent.any fun name => (attributesAt es i).name = some name

/-- The positions, in increasing order, of the entries without a parent. -/
def parentless (es : List Entry) : List Nat :=
  (List.range es.length).filter fun j => (es.getD j {}).parent.isNone

/-- A layer is the given entries, nested as the forest says. -/
structure Nests (top : Option Attributes) (es : List Entry) (forest : List Sprout) (l : Layer) :
    Prop where
  /-- Every entry has one node. -/
  once : (Sprout.positionsAll forest).Perm (List.range es.length)
  /-- Every parent is the name of one entry. -/
  resolve : ∀ e ∈ es, Resolves es e
  /-- Below the node of an entry are those of the entries that refer to it, in order. -/
  follow : Sprout.FollowAll (referring es) forest
  /-- At the top are those of the entries without a parent, in order. -/
  starts : forest.map Sprout.position = parentless es
  /-- A single entry without a parent is the top layer, whatever attributes are given for one. -/
  single : ∀ t, forest = [t] → l = t.layer (attributesAt es) ∧ l.count = es.length ∧
    ∀ top', nest top' es = .ok l
  /-- Otherwise a top layer is made up, with the given attributes but no name. -/
  several : forest.length ≠ 1 →
    l = .node { top.getD {} with name := none } (forest.map (Sprout.layer (attributesAt es))) ∧
      l.count = es.length + 1

variable {es : List Entry} {top : Option Attributes} {parents : List (Option Nat)} {l : Layer}
  {i j : Nat}

/-! ## Children by name -/

theorem getD_of_lt (h : i < es.length) : es[i]? = some (es.getD i {}) := by
  rw [List.getD_eq_getElem?_getD, List.getElem?_eq_getElem h]
  rfl

theorem getD_of_getElem {e : Entry} (h : es[i]? = some e) : es.getD i {} = e := by
  rw [List.getD_eq_getElem?_getD, h]
  rfl

theorem mem_referring : j ∈ referring es i ↔ ∃ e p name, es[j]? = some e ∧ es[i]? = some p ∧
    e.parent = some name ∧ p.attributes.name = some name := by
  rw [referring, List.mem_filter, List.mem_range, Option.any_eq_true]
  refine ⟨?_, ?_⟩
  · rintro ⟨hj, name, hparent, hname⟩
    rw [attributesAt, decide_eq_true_eq] at hname
    have hi : i < es.length := by
      by_contra hge
      rw [List.getD_eq_getElem?_getD, List.getElem?_eq_none (Nat.le_of_not_lt hge)] at hname
      cases hname
    exact ⟨_, _, name, getD_of_lt hj, getD_of_lt hi, hparent, hname⟩
  · rintro ⟨e, p, name, he, hp, hparent, hname⟩
    refine ⟨(List.getElem?_eq_some_iff.mp he).1, name, ?_, ?_⟩
    · rw [getD_of_getElem he, hparent]
    · rw [attributesAt, getD_of_getElem hp, decide_eq_true_eq, hname]

theorem mem_parentless : j ∈ parentless es ↔ ∃ e, es[j]? = some e ∧ e.parent = none := by
  rw [parentless, List.mem_filter, List.mem_range, Option.isNone_iff_eq_none]
  refine ⟨?_, ?_⟩
  · rintro ⟨hj, hnone⟩
    exact ⟨_, getD_of_lt hj, hnone⟩
  · rintro ⟨e, he, hnone⟩
    exact ⟨(List.getElem?_eq_some_iff.mp he).1, by rw [getD_of_getElem he, hnone]⟩

section

variable (h : parentPositions es = .ok parents)

include h

/-- **Children by position are children by name.** -/
theorem childrenOf_eq_referring : childrenOf parents = referring es := by
  funext i
  have hchildren : (childrenOf parents i).Pairwise (· < ·) := by
    by_cases hi : i < parents.length
    · rw [childrenOf, getD_childTable hi]
      exact pairwise_positionsUnder parents (some i)
    · rw [childrenOf_of_le (Nat.le_of_not_lt hi)]
      exact List.Pairwise.nil
  refine hchildren.eq_of_mem_iff (List.pairwise_lt_range.filter _) fun j => ?_
  rw [mem_childrenOf, mem_referring]
  refine ⟨?_, ?_⟩
  · rintro ⟨-, hparent⟩
    have hj : j < es.length := by
      rw [← length_parents h]
      exact (List.getElem?_eq_some_iff.mp hparent).1
    obtain ⟨p, name, hp, hname, hpname⟩ := (parents_eq_some_iff_names h (getD_of_lt hj)).mp hparent
    exact ⟨_, p, name, getD_of_lt hj, hp, hname, hpname⟩
  · rintro ⟨e, p, name, he, hp, hname, hpname⟩
    refine ⟨?_, (parents_eq_some_iff_names h he).mpr ⟨p, name, hp, hname, hpname⟩⟩
    rw [length_parents h]
    exact (List.getElem?_eq_some_iff.mp hp).1

theorem positionsUnder_eq_parentless : positionsUnder parents none = parentless es := by
  refine (pairwise_positionsUnder parents none).eq_of_mem_iff
    (List.pairwise_lt_range.filter _) fun j => ?_
  rw [mem_positionsUnder, mem_parentless]
  refine ⟨?_, ?_⟩
  · intro hparent
    have hj : j < es.length := by
      rw [← length_parents h]
      exact (List.getElem?_eq_some_iff.mp hparent).1
    exact ⟨_, getD_of_lt hj, (parents_eq_none_iff h (getD_of_lt hj)).mp hparent⟩
  · rintro ⟨e, he, hnone⟩
    exact (parents_eq_none_iff h he).mpr hnone

end

/-! ## What is gathered

The attributes are all in their slots when the assembly begins, and the layer of a sprout has those
at its positions. -/

@[simp] theorem size_slots : (slots es).size = es.length := by simp [slots]

theorem found_slots : Slots.found (slots es) = attributesAt es := by
  funext i
  rw [Slots.found, attributesAt, slots, Array.getD_eq_getD_getElem?, List.getD_eq_getElem?_getD,
    List.getElem?_toArray, List.getElem?_map]
  cases es[i]? <;> rfl

variable {ts : List Sprout}

theorem gather_single {t : Sprout} (h : IsForest parents [t]) (hlen : parents.length = es.length) :
    gather es parents top [t.position] = t.layer (attributesAt es) := by
  have hnd := h.nodup
  have hle := h.length_le
  rw [Sprout.positionsAll, Sprout.positionsAll, List.append_nil] at hnd hle
  rw [hlen, ← size_slots] at hle
  rw [gather, Sprout.assemble_eq h.follow.1 hnd hle, found_slots]

theorem gather_several (h : IsForest parents ts) (hlen : parents.length = es.length)
    (hts : ts.length ≠ 1) : gather es parents top (ts.map Sprout.position)
      = .node (madeUpTop top) (ts.map (Sprout.layer (attributesAt es))) := by
  have hsize : (Sprout.positionsAll ts).length ≤ (slots es).size := by
    rw [size_slots, ← hlen]
    exact h.length_le
  have hgather : gather es parents top (ts.map Sprout.position)
      = .node (madeUpTop top)
          (assembleAll (childTable parents) (ts.map Sprout.position) (slots es)).1 := by
    match ts, hts with
    | [], _ => rfl
    | [t], hts => exact absurd rfl hts
    | t :: u :: us, _ => rfl
  rw [hgather, Sprout.assembleAll_eq h.follow h.nodup hsize, found_slots, Sprout.layers_eq_map]

/-- **Nesting loses, repeats and reorders nothing.** -/
theorem nests_of_nest (top : Option Attributes) (es : List Entry) (l : Layer)
    (h : nest top es = .ok l) : ∃ forest, Nests top es forest l := by
  obtain ⟨hne, parents, hparents, hnone, rfl⟩ := parents_of_nest h
  obtain ⟨ts, hts⟩ := exists_isForest parents
  have hlen := length_parents hparents
  have hperm := hts.perm_range (firstUnmarked_eq_none_iff.mp hnone)
  rw [hlen] at hperm
  have hcount : (Sprout.positionsAll ts).length = es.length := by
    rw [hperm.length_eq, List.length_range]
  refine ⟨ts, hperm, exists_parentPositions_iff.mp ⟨parents, hparents⟩, ?_, ?_, ?_, ?_⟩
  · rw [← childrenOf_eq_referring hparents]
    exact hts.follow
  · rw [← positionsUnder_eq_parentless hparents]
    exact hts.starts
  · rintro t rfl
    have hroots : positionsUnder parents none = [t.position] := hts.starts.symm
    rw [hroots, gather_single hts hlen]
    refine ⟨rfl, ?_, fun top' => ?_⟩
    · rw [Sprout.count_layer, ← hcount, Sprout.positionsAll, Sprout.positionsAll, List.append_nil]
    · rw [nest_of_ok hne hparents, hroots, hnone, gather_single hts hlen]
      rfl
  · intro hseveral
    rw [← hts.starts, gather_several hts hlen hseveral]
    refine ⟨rfl, ?_⟩
    rw [Layer.count, ← Sprout.layers_eq_map, Sprout.countAll_layers, hcount]

/-- The sample service has three entries without a parent. -/
theorem nests_serviceEntries : ∃ forest,
    Nests (some Samples.serviceTop) Samples.serviceEntries forest Samples.service :=
  nests_of_nest (some Samples.serviceTop) Samples.serviceEntries Samples.service
    (by rfl)

end Entry

end MapLayers
