import Mathlib.Data.List.Basic
import Mathlib.Data.List.Forall2
import MapLayers.Proofs.Layout.Walking

/-!
# What a layer can see

The rules look at a layer, at what kind of layer it is and at what stands above it, and never at its
siblings.  That is its `Outlook`, in which no position occurs.  The outlooks of a tree are found by
recursion on the tree (`Layer.outlooks`), and an arena of the tree has these outlooks, position by
position (`Arena.sees_all`).

Putting the children of layers in another order (`Rearranged`, at any depth and in several places at
once) puts the outlooks in another order and changes none of them (`Layer.perm_outlooks`).  So what
is a function of outlooks alone is found again after rearranging, with the same layers though at
other positions.

What an arena knows about a layer is more than its outlook: its position, and those of the layers
above it.  `Arena.Sees` says which part of it is the outlook.  It follows the links to parents, so
that it can be used wherever a definition does the same.
-/

set_option autoImplicit false

namespace MapLayers

/-- What a layer can see of its tree. -/
structure Outlook where
  /-- The layer itself. -/
  attributes : Attributes
  /-- The layers above it, the parent first. -/
  above : List Attributes
  /-- Whether nothing is below it. -/
  isLeaf : Bool

/-- The role of a layer shows in its outlook. -/
def Outlook.role (o : Outlook) : Role :=
  if o.above.isEmpty then .top else if o.isLeaf then .data else .group

namespace Layer

mutual

/-- The outlooks of a layer and all below it, in pre-order. -/
def outlooks (above : List Attributes) : Layer → List Outlook
  | .node a cs => ⟨a, above, cs.isEmpty⟩ :: outlooksAll (a :: above) cs

/-- The outlooks of some siblings and all below them, in pre-order. -/
def outlooksAll (above : List Attributes) : List Layer → List Outlook
  | [] => []
  | c :: cs => outlooks above c ++ outlooksAll above cs

end

theorem outlooksAll_eq (above : List Attributes) (cs : List Layer) :
    outlooksAll above cs = cs.flatMap (outlooks above) := by
  induction cs with
  | nil => rfl
  | cons c cs ih => rw [outlooksAll, ih, List.flatMap_cons]

/-! ## Rearranging

`Rearranged` follows the tree: a list of children may be put in another order, and each of the
children may be rearranged in itself. -/

/-- The second layer is the first one with the children of some layers, at any depth, in another
order. -/
inductive Rearranged : Layer → Layer → Prop
  | node (a : Attributes) {cs ds es : List Layer} :
      List.Forall₂ Rearranged cs ds → ds.Perm es → Rearranged (.node a cs) (.node a es)

mutual

/-- A layer may stay as it is. -/
theorem Rearranged.refl : ∀ l : Layer, Rearranged l l
  | .node a cs => .node a (Rearranged.reflAll cs) (.refl cs)

theorem Rearranged.reflAll : ∀ cs : List Layer, List.Forall₂ Rearranged cs cs
  | [] => .nil
  | c :: cs => .cons (Rearranged.refl c) (Rearranged.reflAll cs)

end

mutual

/-- **Rearranging a tree rearranges the outlooks of its layers.** -/
theorem perm_outlooks : ∀ (l l' : Layer) (above : List Attributes), Rearranged l l' →
    (l.outlooks above).Perm (l'.outlooks above)
  | .node a cs, l', above, h => by
    cases h with
    | @node _ _ ds es hchildren hperm =>
      have hleaf : es.isEmpty = cs.isEmpty := by
        rw [Bool.eq_iff_iff, List.isEmpty_iff_length_eq_zero, List.isEmpty_iff_length_eq_zero,
          ← hperm.length_eq, ← hchildren.length_eq]
      have hbelow := perm_outlooksAll cs ds (a :: above) hchildren
      rw [outlooks, outlooks, hleaf]
      refine (hbelow.trans ?_).cons _
      rw [outlooksAll_eq, outlooksAll_eq]
      exact hperm.flatMap_right _

theorem perm_outlooksAll : ∀ (cs ds : List Layer) (above : List Attributes),
    List.Forall₂ Rearranged cs ds → (outlooksAll above cs).Perm (outlooksAll above ds)
  | [], _, _, h => by
    cases h
    exact .refl _
  | c :: cs, _, above, h => by
    cases h with
    | cons hhead htail =>
      exact (perm_outlooks c _ above hhead).append (perm_outlooksAll cs _ above htail)

end

end Layer

/-! ## Outlooks in an arena -/

namespace Arena

/-- The given layer and those above it have the given attributes. -/
def Chain (t : Arena) : Option Nat → List Attributes → Prop
  | p, [] => p = none
  | p, a :: as => ∃ k, p = some k ∧ t.attributes k = a ∧ t.Chain (t.parent k) as

/-- The layer at a position has an outlook. -/
structure Sees (t : Arena) (k : Nat) (o : Outlook) : Prop where
  attributes : t.attributes k = o.attributes
  above : t.Chain (t.parent k) o.above
  role : t.role k = o.role

theorem chain_none_iff {t : Arena} {above : List Attributes} :
    t.Chain none above ↔ above = [] := by
  cases above <;> simp [Chain]

theorem chain_some_iff {t : Arena} {p : Nat} {above : List Attributes} :
    t.Chain (some p) above ↔ ∃ as, above = t.attributes p :: as ∧ t.Chain (t.parent p) as := by
  cases above with
  | nil => simp [Chain]
  | cons a as =>
    refine ⟨?_, ?_⟩
    · rintro ⟨k, hk, rfl, hchain⟩
      cases hk
      exact ⟨as, rfl, hchain⟩
    · rintro ⟨bs, heq, hchain⟩
      cases heq
      exact ⟨p, rfl, rfl, hchain⟩

section

variable {t : Arena}

/-- The outlook of a place. -/
theorem sees_of_node {a : Attributes} {cs : List Layer} {k : Nat} {p nx : Option Nat}
    {above : List Attributes} (hchain : t.Chain p above)
    (h : t.nodes[k]? = some (Place.node ⟨.node a cs, k, p, nx⟩)) :
    t.Sees k ⟨a, above, cs.isEmpty⟩ where
  attributes := by
    rw [attributes, h]
    rfl
  above := by
    rw [parent, h]
    exact hchain
  role := by
    rw [role, h]
    cases p with
    | none =>
      rw [chain_none_iff.mp hchain]
      rfl
    | some p =>
      obtain ⟨as, rfl, -⟩ := chain_some_iff.mp hchain
      cases cs <;> rfl

mutual

theorem sees_places : ∀ (l : Layer) (k : Nat) (p nx : Option Nat) (above : List Attributes),
    t.Chain p above → (∀ r ∈ l.places k p nx, t.nodes[r.position]? = some r.node) →
      List.Forall₂ (fun r o => t.Sees r.position o) (l.places k p nx) (l.outlooks above)
  | .node a cs, k, p, nx, above, hchain, h => by
    rw [Layer.places, List.forall_mem_cons] at h
    have hself := sees_of_node hchain h.1
    have hbelow : t.Chain (some k) (a :: above) := ⟨k, rfl, hself.attributes, hself.above⟩
    exact .cons hself (sees_placesAll cs k (k + 1) _ hbelow h.2)

theorem sees_placesAll : ∀ (cs : List Layer) (p k : Nat) (above : List Attributes),
    t.Chain (some p) above → (∀ r ∈ Layer.placesAll p k cs, t.nodes[r.position]? = some r.node) →
      List.Forall₂ (fun r o => t.Sees r.position o) (Layer.placesAll p k cs)
        (Layer.outlooksAll above cs)
  | [], _, _, _, _, _ => .nil
  | c :: cs, p, k, above, hchain, h => by
    rw [Layer.placesAll, List.forall_mem_append] at h
    exact List.rel_append (sees_places c k _ _ above hchain h.1)
      (sees_placesAll cs p _ above hchain h.2)

end

end

/-- **The layers of a tree have the outlooks of the tree**, in pre-order. -/
theorem sees_all (l : Layer) :
    List.Forall₂ (ofLayer l).Sees (ofLayer l).all (l.outlooks []) := by
  rw [all_eq_positions]
  exact List.forall₂_map_left_iff.mpr (sees_places l 0 none none [] rfl fun _ hr => node_eq hr)

theorem map_attributes_all (l : Layer) :
    (ofLayer l).all.map (ofLayer l).attributes = (l.outlooks []).map Outlook.attributes := by
  rw [← List.forall₂_eq_eq_eq, List.forall₂_map_left_iff, List.forall₂_map_right_iff]
  exact (sees_all l).imp fun _ _ h => h.attributes

end Arena

end MapLayers
