import Mathlib.Data.List.Nodup
import Mathlib.Data.List.Pairwise
import MapLayers.Proofs.Guarded.Nesting

/-!
# Assembling as a recursion

The layer at a position has the attributes in its slot and, in order, the layers at its children.
Said like this it is a recursion, which makes sense wherever one cannot go down forever
(`Slots.layerAt`).  Assembling does not recurse: its stack holds the way from the root down to where
it is, every frame with the layers that are finished, and their number tells which child comes next.
A wrong number would not be noticed, because an empty slot passes for one with nothing in it.

Here the two are shown to agree.  What it takes is that the roots are those of a forest whose slots
are full (`FilledForest`); elsewhere in the table there may be cycles and empty slots.  A call then
ends by itself, having taken what is in the slots that are reached from its root, once each, and
nothing else (`AssemblesTree`).  So calls for several roots, one after the other, give what each
gives alone (`AssemblesForest`).

Between the table and the recursion stand the sprouts.  The roots of a filled forest start sprouts
that have each reached position once (`FilledForest.exists_sprouts`); along a sprout one cannot go
down forever (`Sprout.acc_position`), and its layer is the one that the recursion gives
(`Sprout.layer_eq_layerAt`).

The table of children of any list of parents is such a forest, with the entries that have no parent
for roots (`Entry.filledForest_slots`), so all of this is true of what nesting does.
-/

set_option autoImplicit false

namespace MapLayers

/-- The layer at a position, by recursion: it has the attributes in its slot and, in order, the
layers at its children. -/
def Slots.layerAt (children : Array (List Nat)) (slots : Slots) (i : Nat)
    (h : Acc (fun c j => c ∈ children.getD j []) i) : Layer :=
  .node (slots.found i)
    ((children.getD i []).attach.map fun c => slots.layerAt children c.1 (h.inv c.2))
termination_by (⟨i, h⟩ : {i // Acc (fun c j => c ∈ children.getD j []) i})
decreasing_by exact c.2

/-- Going down from the first position one comes to the second. -/
def Reaches (children : Array (List Nat)) (root j : Nat) : Prop :=
  ∃ k, Below (children.getD · []) root k j

/-- The given positions are roots of a forest whose slots are full. -/
structure FilledForest (children : Array (List Nat)) (slots : Slots) (roots : List Nat) : Prop where
  /-- No position is listed as a child twice. -/
  once : children.toList.flatten.Nodup
  /-- No cycle is reached from a root. -/
  acyclic : ∀ root ∈ roots, ∀ j, Reaches children root j →
    ∀ k, ¬ Below (children.getD · []) j (k + 1) j
  /-- What is reached from a root is in the table. -/
  listed : ∀ root ∈ roots, ∀ j, Reaches children root j → j < children.size
  /-- Its slot is full. -/
  filled : ∀ root ∈ roots, ∀ j, Reaches children root j → ∃ a, slots[j]? = some (some a)
  /-- No root is reached from another one. -/
  apart : roots.Pairwise fun a b => ¬ Reaches children a b ∧ ¬ Reaches children b a

/-- What it means to assemble the layer at a root. -/
structure AssemblesTree (children : Array (List Nat)) (slots : Slots) (root : Nat) : Prop where
  /-- The loop comes to its end when it has taken what is in the slots that are reached, once
  each. -/
  takes : ∃ ps : List Nat, ps.Nodup ∧ (∀ j, j ∈ ps ↔ Reaches children root j) ∧
    Takes children ps [⟨root, []⟩] slots (assemble children root slots)
  /-- It is not its bound that ends it. -/
  ends : ∀ bound, 2 * slots.size ≤ bound →
    assembleFrames children bound [⟨root, []⟩] slots = assemble children root slots
  /-- It stays inside the table and the slots, and finds no slot empty. -/
  guarded : assembleGuarded children root slots = .ok (assemble children root slots)
  /-- The layer is the one that the recursion gives. -/
  layer : ∃ h, (assemble children root slots).1 = slots.layerAt children root h
  /-- The slots that are reached are empty afterwards. -/
  emptied : ∀ j, Reaches children root j → (assemble children root slots).2[j]? = some none
  /-- All other slots are as they were. -/
  untouched : ∀ j, ¬ Reaches children root j → (assemble children root slots).2[j]? = slots[j]?

/-- What it means to assemble the layers at several roots, one after the other. -/
structure AssemblesForest (children : Array (List Nat)) (slots : Slots) (roots : List Nat) :
    Prop where
  /-- Each root could be the first, -/
  tree : ∀ root ∈ roots, AssemblesTree children slots root
  /-- and has the same layer when it is not. -/
  layers : (assembleAll children roots slots).1
    = roots.map fun root => (assemble children root slots).1
  /-- No call finds a slot empty that an earlier one has emptied. -/
  guarded : assembleAllGuarded children roots slots = .ok (assembleAll children roots slots)
  /-- The slots that are reached from a root are empty afterwards. -/
  emptied : ∀ root ∈ roots, ∀ j, Reaches children root j →
    (assembleAll children roots slots).2[j]? = some none
  /-- All other slots are as they were. -/
  untouched : ∀ j, (∀ root ∈ roots, ¬ Reaches children root j) →
    (assembleAll children roots slots).2[j]? = slots[j]?

variable {children : Array (List Nat)} {slots : Slots} {roots ps : List Nat} {i c : Nat}

/-! ## Tables

Rows of a table of children, by position.  That no position is listed twice can be said of the rows
put one after the other. -/

theorem lt_size_of_mem_getD (h : c ∈ children.getD i []) : i < children.size := by
  by_contra hge
  rw [Array.getD_eq_getD_getElem?, Array.getElem?_eq_none (Nat.le_of_not_lt hge)] at h
  cases h

theorem getElem_toList_eq_getD (h : i < children.toList.length) :
    children.toList[i] = children.getD i [] := by
  rw [Array.getElem_toList, Array.getElem_eq_getD []]

theorem mem_flatten_iff : c ∈ children.toList.flatten ↔ ∃ i, c ∈ children.getD i [] := by
  rw [List.mem_flatten]
  constructor
  · rintro ⟨row, hrow, hc⟩
    obtain ⟨i, hi, rfl⟩ := List.getElem_of_mem hrow
    rw [getElem_toList_eq_getD] at hc
    exact ⟨i, hc⟩
  · rintro ⟨i, hc⟩
    have hi : i < children.toList.length := lt_size_of_mem_getD hc
    refine ⟨_, List.getElem_mem hi, ?_⟩
    rwa [getElem_toList_eq_getD]

/-- **No position is listed twice** just when the rows together list none twice. -/
theorem listedOnce_iff : ListedOnce (children.getD · []) ↔ children.toList.flatten.Nodup := by
  rw [List.nodup_flatten, List.pairwise_iff_getElem]
  constructor
  · intro h
    refine ⟨fun row hrow => ?_, fun i j hi hj hlt c hc hc' => ?_⟩
    · obtain ⟨i, hi, rfl⟩ := List.getElem_of_mem hrow
      rw [getElem_toList_eq_getD]
      exact h.nodup i
    · rw [getElem_toList_eq_getD] at hc hc'
      exact Nat.ne_of_lt hlt (h.parent_eq hc hc')
  · rintro ⟨hnd, hdisjoint⟩
    constructor
    · intro i
      by_cases hi : i < children.toList.length
      · rw [← getElem_toList_eq_getD hi]
        exact hnd _ (List.getElem_mem hi)
      · have hnil : children.getD i [] = [] :=
          List.eq_nil_iff_forall_not_mem.mpr fun c hc => hi (lt_size_of_mem_getD hc)
        rw [hnil]
        exact List.nodup_nil
    · intro i j c hc hc'
      have hi : i < children.toList.length := lt_size_of_mem_getD hc
      have hj : j < children.toList.length := lt_size_of_mem_getD hc'
      rw [← getElem_toList_eq_getD hi] at hc
      rw [← getElem_toList_eq_getD hj] at hc'
      rcases Nat.lt_trichotomy i j with h | h | h
      · exact absurd hc' (hdisjoint i j hi hj h hc)
      · exact h
      · exact absurd hc (hdisjoint j i hj hi h hc')

theorem Reaches.refl (children : Array (List Nat)) (root : Nat) : Reaches children root root :=
  ⟨0, .here⟩

/-! ## One sprout -/

namespace Slots

theorem getElem?_without_of_mem (h : i ∈ ps) (hlt : i < slots.size) :
    (slots.without ps)[i]? = some none := by
  rw [without, Array.getElem?_mapIdx, Array.getElem?_eq_getElem hlt, Option.map_some, if_pos h]

theorem getElem?_without_of_not_mem (h : i ∉ ps) : (slots.without ps)[i]? = slots[i]? := by
  rw [without, Array.getElem?_mapIdx]
  simp only [if_neg h, Option.map_id']

end Slots

namespace Sprout

variable {under : Nat → List Nat} {t : Sprout} {ts : List Sprout}

theorem mem_positions_iff (h : t.Follows under) :
    i ∈ t.positions ↔ ∃ k, Below under t.position k i := by
  have hall : FollowAll under [t] := ⟨h, trivial⟩
  have hmem := mem_positionsAll_iff (i := i) hall
  simpa [positionsAll] using hmem

mutual

/-- Where a sprout follows the table, one cannot go down forever. -/
theorem acc_position : ∀ t : Sprout, t.Follows under → Acc (fun c j => c ∈ under j) t.position
  | .node i ts, h => by
    refine ⟨i, fun c hc => acc_of_mem ts h.2 c ?_⟩
    rw [h.1]
    exact hc

theorem acc_of_mem : ∀ ts : List Sprout, FollowAll under ts →
    ∀ c ∈ ts.map position, Acc (fun c j => c ∈ under j) c
  | [], _ => by simp
  | t :: ts, h => by
    rw [List.map_cons, List.forall_mem_cons]
    exact ⟨acc_position t h.1, acc_of_mem ts h.2⟩

end

mutual

/-- **The layer of a sprout is the one that the recursion gives.** -/
theorem layer_eq_layerAt : ∀ (t : Sprout) (h : Acc (fun c j => c ∈ children.getD j []) t.position),
    t.Follows (children.getD · []) → t.layer slots.found = slots.layerAt children t.position h
  | .node i ts, h, hfollows => by
    have hall := layers_eq_map_layerAt ts _ (fun c hc => h.inv hc) hfollows.2 hfollows.1
    rw [layer, Slots.layerAt, hall]
    rfl

-- The row is a list of its own here, because its members come with a proof that they are in it.
theorem layers_eq_map_layerAt : ∀ (ts : List Sprout) (row : List Nat)
    (h : ∀ c ∈ row, Acc (fun c j => c ∈ children.getD j []) c), FollowAll (children.getD · []) ts →
      ts.map position = row →
        layers slots.found ts = row.attach.map fun c => slots.layerAt children c.1 (h c.1 c.2)
  | [], _, _, _, rfl => rfl
  | t :: ts, _, h, hfollow, rfl => by
    have hrest := layers_eq_map_layerAt ts _ (fun c hc => h c (List.mem_cons_of_mem _ hc))
      hfollow.2 rfl
    rw [layers, layer_eq_layerAt t (h _ List.mem_cons_self) hfollow.1, hrest]
    show _ = (t.position :: ts.map position).attach.map _
    rw [List.attach_cons, List.map_cons, List.map_map]
    rfl

end

/-- **Assembling a sprout whose slots are full** is the recursion, and takes just these slots. -/
theorem assemblesTree (hfollows : t.Follows (children.getD · [])) (hnd : t.positions.Nodup)
    (hfull : slots.Full t.positions) (hlt : ∀ i ∈ t.positions, i < children.size) :
    AssemblesTree children slots t.position := by
  have heq := assemble_eq hfollows hnd (length_positions_le hnd hfull)
  have hperm := perm_bottomUp t
  have htakes : Takes children t.bottomUp [⟨t.position, []⟩] slots _ := takes hfollows hnd
  have hmem : ∀ j, j ∈ t.positions ↔ Reaches children t.position j :=
    fun _ => mem_positions_iff hfollows
  constructor
  case takes =>
    refine ⟨t.bottomUp, hperm.nodup_iff.mpr hnd, fun j => hperm.mem_iff.trans (hmem j), ?_⟩
    rw [heq]
    exact htakes
  case ends =>
    intro bound hbound
    have hlen := length_positions_le hnd hfull
    rw [heq]
    exact (closes hfollows hnd).assembleFrames_eq bound (by omega)
  case guarded => exact assembleGuarded_eq_ok hfollows hnd hfull hlt
  case layer =>
    rw [heq]
    exact ⟨acc_position t hfollows, layer_eq_layerAt t _ hfollows⟩
  case emptied =>
    intro j hj
    have hin : j ∈ t.positions := (hmem j).mpr hj
    rw [heq]
    exact Slots.getElem?_without_of_mem hin (hfull.lt hin)
  case untouched =>
    intro j hj
    have hout : j ∉ t.positions := fun hin => hj ((hmem j).mp hin)
    rw [heq]
    exact Slots.getElem?_without_of_not_mem hout

/-! ## Several sprouts -/

theorem follows_of_mem : ∀ {ts : List Sprout}, FollowAll under ts → ∀ t ∈ ts, t.Follows under
  | [], _ => by simp
  | t :: ts, h => by
    rw [List.forall_mem_cons]
    exact ⟨h.1, follows_of_mem h.2⟩

theorem sublist_positionsAll (h : t ∈ ts) : t.positions.Sublist (positionsAll ts) := by
  induction ts with
  | nil => cases h
  | cons u us ih =>
    rw [positionsAll]
    rcases List.mem_cons.mp h with rfl | h
    · exact List.sublist_append_left _ _
    · exact (ih h).trans (List.sublist_append_right _ _)

/-- **Assembling sprouts one after the other**, each with its own slots, gives what each gives
alone. -/
theorem assemblesForest_map (hfollow : FollowAll (children.getD · []) ts)
    (hnd : (positionsAll ts).Nodup) (hfull : slots.Full (positionsAll ts))
    (hlt : ∀ i ∈ positionsAll ts, i < children.size) :
    AssemblesForest children slots (ts.map position) := by
  have hlen : (positionsAll ts).length ≤ slots.size :=
    length_le_of_nodup hnd fun _ hi => hfull.lt hi
  have heq := assembleAll_eq hfollow hnd hlen
  have htree : ∀ t ∈ ts, AssemblesTree children slots t.position := by
    intro t ht
    have hsub := (sublist_positionsAll ht).subset
    exact assemblesTree (follows_of_mem hfollow t ht) (hnd.sublist (sublist_positionsAll ht))
      (fun i hi => hfull i (hsub hi)) (fun i hi => hlt i (hsub hi))
  have hmem : ∀ j, j ∈ positionsAll ts ↔ ∃ root ∈ ts.map position, Reaches children root j :=
    fun _ => mem_positionsAll_iff hfollow
  constructor
  case tree => exact List.forall_mem_map.mpr htree
  case layers =>
    rw [heq, layers_eq_map, List.map_map]
    refine List.map_congr_left fun t ht => ?_
    obtain ⟨h, hlayer⟩ := (htree t ht).layer
    exact (layer_eq_layerAt t h (follows_of_mem hfollow t ht)).trans hlayer.symm
  case guarded => exact assembleAllGuarded_eq_ok hfollow hnd hfull hlt
  case emptied =>
    intro root hroot j hj
    have hin : j ∈ positionsAll ts := (hmem j).mpr ⟨root, hroot, hj⟩
    rw [heq]
    exact Slots.getElem?_without_of_mem hin (hfull.lt hin)
  case untouched =>
    intro j hj
    have hout : j ∉ positionsAll ts := by
      intro hin
      obtain ⟨root, hroot, hreaches⟩ := (hmem j).mp hin
      exact hj root hroot hreaches
    rw [heq]
    exact Slots.getElem?_without_of_not_mem hout

end Sprout

/-! ## Forests

When all slots are full and no position is listed twice, the positions that are listed nowhere are
the roots of a filled forest, whatever cycles there are among the others. -/

namespace FilledForest

section

variable (h : FilledForest children slots roots)

include h

theorem apart_roots : Apart (children.getD · []) roots := by
  intro a ha b hb k hk
  by_cases hab : a = b
  · subst hab
    exact h.acyclic a ha a (.refl children a) k hk
  · have hsymm : Std.Symm fun a b => ¬ Reaches children a b ∧ ¬ Reaches children b a :=
      ⟨fun _ _ => And.symm⟩
    exact (h.apart.forall ha hb hab).1 ⟨k + 1, hk⟩

theorem nodup_roots : roots.Nodup := by
  refine h.apart.imp fun {a b} hab heq => hab.1 ?_
  rw [heq]
  exact .refl children b

/-- **The roots of a filled forest start sprouts**, which together have each position that is
reached once. -/
theorem exists_sprouts : ∃ ts : List Sprout, ts.map Sprout.position = roots ∧
    Sprout.FollowAll (children.getD · []) ts ∧ (Sprout.positionsAll ts).Nodup ∧
      ∀ j, j ∈ Sprout.positionsAll ts ↔ ∃ root ∈ roots, Reaches children root j := by
  have honce := listedOnce_iff.mpr h.once
  have hbound : ∀ j, children.size ≤ j → children.getD j [] = [] := by
    intro j hj
    rw [List.eq_nil_iff_forall_not_mem]
    exact fun c hc => Nat.not_lt_of_le hj (lt_size_of_mem_getD hc)
  obtain ⟨ts, hts, hfollow⟩ := Sprout.exists_followAll fun root hroot =>
    Sprout.exists_follows honce hbound (h.apart_roots.of_mem hroot)
  refine ⟨ts, hts, hfollow, ?_, fun j => ?_⟩
  · exact Sprout.nodup_positionsAll honce hfollow (hts ▸ h.apart_roots) (hts ▸ h.nodup_roots)
  · rw [← hts]
    exact Sprout.mem_positionsAll_iff hfollow

end

/-- In a table that lists no position twice, whatever is listed nowhere is the root of a tree.  When
all slots are full, these roots are those of a filled forest. -/
theorem of_not_listed (once : children.toList.flatten.Nodup)
    (hlt : ∀ c ∈ children.toList.flatten, c < children.size)
    (hfull : slots.Full (List.range children.size)) (hnd : roots.Nodup)
    (hroots : ∀ root ∈ roots, root < children.size ∧ root ∉ children.toList.flatten) :
    FilledForest children slots roots := by
  have hnot : ∀ root ∈ roots, ∀ j, root ∉ children.getD j [] := fun root hroot j hj =>
    (hroots root hroot).2 (mem_flatten_iff.mpr ⟨j, hj⟩)
  have hsize : ∀ root ∈ roots, ∀ j, Reaches children root j → j < children.size := by
    rintro root hroot j ⟨k, hk⟩
    cases hk with
    | here => exact (hroots _ hroot).1
    | child _ hc => exact hlt j (mem_flatten_iff.mpr ⟨_, hc⟩)
  constructor
  case once => exact once
  case acyclic =>
    rintro root hroot j ⟨k, hk⟩
    have hapart := (Apart.of_not_listed hnot).of_mem hroot
    exact Apart.singleton_iff.mp (hapart.below (listedOnce_iff.mpr once) hk)
  case listed => exact hsize
  case filled =>
    intro root hroot j hj
    exact hfull j (List.mem_range.mpr (hsize root hroot j hj))
  case apart =>
    have hne : ∀ a ∈ roots, ∀ b ∈ roots, a ≠ b → ¬ Reaches children a b := by
      rintro a _ b hb hab ⟨k, hk⟩
      cases hk with
      | here => exact hab rfl
      | child _ hc => exact hnot b hb _ hc
    exact hnd.pairwise_of_forall_ne fun a ha b hb hab =>
      ⟨hne a ha b hb hab, hne b hb a ha hab.symm⟩

end FilledForest

/-- **What nesting assembles is a filled forest**, with the entries without a parent for roots,
whatever cycles other entries are on. -/
theorem Entry.filledForest_slots {es : List Entry} {parents : List (Option Nat)}
    (h : parentPositions es = .ok parents) :
    FilledForest (childTable parents) (Entry.slots es) (positionsUnder parents none) := by
  have hlen := length_parents h
  have hlisted : ∀ c ∈ (childTable parents).toList.flatten,
      ∃ i, parents[c]? = some (some i) := by
    intro c hc
    obtain ⟨i, hi⟩ := mem_flatten_iff.mp hc
    exact ⟨i, (mem_childrenOf.mp hi).2⟩
  refine .of_not_listed (listedOnce_iff.mp (listedOnce_childrenOf parents)) ?_ ?_
    (nodup_positionsUnder parents none) ?_
  · intro c hc
    obtain ⟨i, hi⟩ := hlisted c hc
    rw [size_childTable]
    exact (List.getElem?_eq_some_iff.mp hi).1
  · refine full_slots fun i hi => ?_
    rw [size_childTable, hlen] at hi
    exact List.mem_range.mp hi
  · intro root hroot
    have hnone := mem_positionsUnder.mp hroot
    rw [size_childTable]
    refine ⟨(List.getElem?_eq_some_iff.mp hnone).1, fun hmem => ?_⟩
    obtain ⟨i, hi⟩ := hlisted root hmem
    rw [hnone] at hi
    cases hi

/-! ## The recursion -/

/-- **Assembling is the recursion**, at every root of a forest with full slots, whichever roots come
before. -/
theorem FilledForest.assemblesForest (children : Array (List Nat)) (slots : Slots)
    (roots : List Nat) (h : FilledForest children slots roots) :
    AssemblesForest children slots roots := by
  obtain ⟨ts, rfl, hfollow, hnd, hmem⟩ := h.exists_sprouts
  refine Sprout.assemblesForest_map hfollow hnd (fun j hj => ?_) (fun j hj => ?_)
  · obtain ⟨root, hroot, hj⟩ := (hmem j).mp hj
    exact h.filled root hroot j hj
  · obtain ⟨root, hroot, hj⟩ := (hmem j).mp hj
    exact h.listed root hroot j hj

/-- Two trees, with their entries mixed and children before their parents, and an entry that is its
own parent. -/
def Entry.twoTrees : List Entry :=
  [{ attributes := { name := some "low" }, parent := some "second" },
    { attributes := { name := some "first" } },
    { attributes := { name := some "second" } },
    { attributes := { name := some "self" }, parent := some "self" },
    { attributes := { name := some "middle" }, parent := some "first" },
    { attributes := { name := some "inner" }, parent := some "middle" },
    { attributes := { name := some "high" }, parent := some "second" }]

/-- The positions of their children. -/
def Entry.twoTreesRows : Array (List Nat) := #[[], [4], [0, 6], [3], [5], [], []]

theorem FilledForest.assemblesForest_twoTrees :
    FilledForest Entry.twoTreesRows (Entry.slots Entry.twoTrees) [1, 2] ∧
      AssemblesForest Entry.twoTreesRows (Entry.slots Entry.twoTrees) [1, 2] ∧
        (assembleAll Entry.twoTreesRows [1, 2] (Entry.slots Entry.twoTrees)).1
          = [.node { name := some "first" }
              [.node { name := some "middle" } [.leaf { name := some "inner" }]],
            .node { name := some "second" }
              [.leaf { name := some "low" }, .leaf { name := some "high" }]] ∧
          (assembleAll Entry.twoTreesRows [1, 2] (Entry.slots Entry.twoTrees)).2.toList
            = [none, none, none, some { name := some "self" }, none, none, none] := by
  have hparents : Entry.parentPositions Entry.twoTrees
      = .ok [some 2, none, none, some 3, some 1, some 4, some 2] := by decide +kernel
  have hforest : FilledForest Entry.twoTreesRows (Entry.slots Entry.twoTrees) [1, 2] :=
    Entry.filledForest_slots hparents
  exact ⟨hforest, FilledForest.assemblesForest _ _ _ hforest, by rfl, by decide +kernel⟩

end MapLayers
