import MapLayers.Proofs.Flat.Arrangement
import MapLayers.Proofs.Layout.Depths

/-!
# Chains

The flat lists that go deepest are those in which every entry refers to the one before it
(`Entry.chain`).  As long as the names of the entries are there and differ, such a list describes
layers one below the other, with the same attributes in the same order (`Entry.nest_chain`), so that
its depth is bounded by nothing but its length (`Layer.depths_chain`).

A nested description cannot compete: it is a text in which every level of layers is two levels of
JSON, and a reader goes no deeper than `Json.maxNesting`.  It takes a flat list to arrive at a
hierarchy that is too deep for something that is done to it.

The entries lie in the list as the layers lie in the tree, so the sprouts that show it are chains
themselves, with consecutive positions (`Sprout.chain`, `Sprout.lists_chain`), and the general fact
about flat lists that describe a tree applies (`Entry.Arranged.nest_eq_gather`).  Different names
are needed for more than it may seem: an entry in the middle is the parent of another, so it has to
be the only one of its name (`Layer.referable_of_nodup`).
-/

set_option autoImplicit false

namespace MapLayers

/-- Entries with the given attributes, each of them under the name of the one before. -/
def Entry.chain (parent : Option String) : List Attributes → List Entry
  | [] => []
  | a :: as => ⟨a, parent⟩ :: chain a.name as

@[simp] theorem Entry.length_chain : ∀ (as : List Attributes) (parent : Option String),
    (chain parent as).length = as.length
  | [], _ => rfl
  | _ :: as, _ => congrArg Nat.succ (length_chain as _)

namespace Sprout

/-- Consecutive positions, each of them below the one before. -/
def chain (start : Nat) : Nat → Sprout
  | 0 => .node start []
  | n + 1 => .node start [chain (start + 1) n]

theorem positions_chain : ∀ (n start : Nat),
    (chain start n).positions = List.range' start (n + 1)
  | 0, _ => rfl
  | n + 1, start => by
    rw [chain, positions, positionsAll, positionsAll, List.append_nil,
      positions_chain n (start + 1), ← List.range'_succ]

/-- In a list that ends with a chain, the entries of its layers are in a row. -/
theorem lists_chain : ∀ (as : List Attributes) (a : Attributes) (es : List Entry)
    (parent : Option String),
      (chain es.length as.length).Lists (es ++ Entry.chain parent (a :: as)) parent
        (Layer.chain a as)
  | [], a, es, parent => by
    refine ⟨?_, List.Pairwise.nil, trivial⟩
    rw [Entry.chain, Entry.chain, List.getElem?_concat_length]
  | b :: as, a, es, parent => by
    have hrest := lists_chain as b (es ++ [⟨a, parent⟩]) a.name
    rw [List.length_append, List.length_singleton, List.append_assoc] at hrest
    refine ⟨?_, List.pairwise_singleton _ _, hrest, trivial⟩
    rw [Entry.chain, List.getElem?_append_right (Nat.le_refl _), Nat.sub_self]
    rfl

end Sprout

namespace Layer

theorem map_attributes_chain : ∀ (as : List Attributes) (a : Attributes),
    (chain a as).preorder.map attributes = a :: as
  | [], _ => rfl
  | b :: as, a => by
    rw [chain, preorder, preorderAll, preorderAll, List.append_nil, List.map_cons,
      map_attributes_chain as b]
    rfl

/-- Where all names are there and differ, every layer can be referred to. -/
theorem referable_of_nodup {ls : List Layer}
    (hnames : (ls.map fun l => l.attributes.name).Nodup)
    (hnamed : ∀ l ∈ ls, l.attributes.name ≠ none) : Referable ls := by
  intro s hs _
  refine ⟨hnamed s hs, ?_⟩
  have hcount := List.count_eq_one_of_mem hnames (List.mem_map_of_mem hs)
  rw [List.count_eq_countP, List.countP_map] at hcount
  rw [← hcount]
  exact List.countP_congr fun u _ => by simp

end Layer

namespace Entry

variable {a : Attributes} {as : List Attributes}

/-- **A chain of entries describes a chain of layers.** -/
theorem nest_chain (top : Option Attributes) (hnames : ((a :: as).map Attributes.name).Nodup)
    (hnamed : ∀ b ∈ a :: as, b.name ≠ none) :
    nest top (chain none (a :: as)) = .ok (Layer.chain a as) := by
  have hmap := Layer.map_attributes_chain as a
  have hr : Layer.Referable (Layer.preorderAll [Layer.chain a as]) := by
    rw [Layer.preorderAll, Layer.preorderAll, List.append_nil]
    refine Layer.referable_of_nodup ?_ ?_
    · rwa [← hmap, List.map_map] at hnames
    · rwa [← hmap, List.forall_mem_map] at hnamed
  have h : Arranged (chain none (a :: as)) [.chain 0 as.length] [Layer.chain a as] := {
    lists := ⟨Sprout.lists_chain as a [] none, trivial⟩
    starts := List.pairwise_singleton _ _
    once := by
      rw [Sprout.positionsAll, Sprout.positionsAll, List.append_nil, Sprout.positions_chain,
        length_chain, List.length_cons, List.range_eq_range'] }
  obtain ⟨parents, hparents⟩ := exists_parentPositions_iff.mpr fun _ he => h.resolves hr he
  rw [h.nest_eq_gather hr hparents (List.cons_ne_nil _ _), List.map_singleton,
    gather_single (h.isForest hr hparents) (length_parents hparents), h.lists.1.layer_eq]

end Entry

end MapLayers
