import Mathlib.Data.List.Basic
import MapLayers.Proofs.Layout.Relabelling
import MapLayers.Proofs.Layout.Walking
import MapLayers.Views.Selection

/-!
# The styles that a layer shares with its parent

`Arena.styleCollisions` is filled from the side of the parents: for every layer, for every child, an
entry is set.  Read from the side of the children it is simpler, because every layer but the top is
the child of exactly one other: the entry of a layer lists what it shares with that one
(`Arena.lookup_styleCollisions_child`), and the top has no entry
(`Arena.lookup_styleCollisions_top`).

The two loops are one loop over *edges*, the pairs of a layer and a child (`Arena.edges`).  What
counts is whether a layer is ever entered as the child of another one; if it is entered for one
parent only, what it shares with that parent is its entry in the end, however often it is entered
(`Arena.lookup_foldl_enterEdge`).

What two layers share is a matter of their style names (`Arena.sharedStyles_eq_filter`), and it is
empty when they have no style name in common.
-/

set_option autoImplicit false

namespace MapLayers

theorem Attributes.isSome_style?_iff {a : Attributes} {n : String} :
    (a.style? n).isSome ↔ n ∈ a.styles.map Style.name := by
  rw [style?, List.find?_isSome, List.mem_map]
  simp only [beq_iff_eq]

namespace Arena

variable {l : Layer} {q c : Place}

/-- What a layer shares with another follows from the style names of the two. -/
theorem sharedStyles_eq_filter (t : Arena) (p k : Nat) : t.sharedStyles p k
    = ((t.attributes k).styles.map Style.name).filter
        (· ∈ (t.attributes p).styles.map Style.name) := by
  rw [sharedStyles, List.filter_map]
  congr 2
  funext st
  rw [Bool.eq_iff_iff, Attributes.isSome_style?_iff, Function.comp_apply, decide_eq_true_eq]

/-! ## The table, edge by edge

The loop over parents and the loop over their children as one loop over pairs. -/

/-- Enter what the child of an edge shares with the parent. -/
def enterEdge (t : Arena) (table : List (Nat × List String)) (e : Nat × Nat) :
    List (Nat × List String) :=
  if (t.sharedStyles e.1 e.2).isEmpty then table
  else insertByKey e.2 (t.sharedStyles e.1 e.2) table

/-- The pairs of a layer and a child, parent by parent. -/
def edges (t : Arena) : List (Nat × Nat) := t.all.flatMap fun p => (t.children p).map (p, ·)

theorem styleCollisions_eq (t : Arena) : t.styleCollisions = t.edges.foldl t.enterEdge [] := by
  rw [styleCollisions, edges, List.foldl_flatMap]
  congr 1
  funext table p
  rw [List.foldl_map]
  rfl

/-- A layer that is only ever entered as the child of `p` has what it shares with `p` as its
entry. -/
theorem lookup_foldl_enterEdge (t : Arena) {p k : Nat} : ∀ (es : List (Nat × Nat))
    (table : List (Nat × List String)), (∀ e ∈ es, e.2 = k → e.1 = p) →
      (es.foldl t.enterEdge table).lookup k
        = if (p, k) ∈ es ∧ t.sharedStyles p k ≠ [] then some (t.sharedStyles p k)
          else table.lookup k
  | [], table, _ => by simp
  | (p', k') :: es, table, h => by
    have htail := lookup_foldl_enterEdge t es (t.enterEdge table (p', k'))
      fun e he => h e (List.mem_cons_of_mem _ he)
    rw [List.foldl_cons, htail, enterEdge]
    by_cases hk : k' = k
    · obtain rfl : p' = p := h _ List.mem_cons_self hk
      subst hk
      cases hs : t.sharedStyles p' k' with
      | nil => simp
      | cons s ss => simp [lookup_insertByKey_self]
    · have hne : (p, k) ≠ (p', k') := fun heq => hk (Prod.mk.inj heq).2.symm
      have hother : (if (t.sharedStyles p' k').isEmpty then table
          else insertByKey k' (t.sharedStyles p' k') table).lookup k = table.lookup k := by
        split
        · rfl
        · exact lookup_insertByKey_of_ne (Ne.symm hk) _ _
      simp only [hother, List.mem_cons, hne, false_or]

/-- The table depends on links and styles alone. -/
theorem SameLinks.styleCollisions_eq {t t' : Arena} (h : t.SameLinks t')
    (hstyles : ∀ k, (t'.attributes k).styles = (t.attributes k).styles) :
    t'.styleCollisions = t.styleCollisions := by
  have hshared : t'.sharedStyles = t.sharedStyles := by
    funext p k
    simp only [sharedStyles, Attributes.style?, hstyles]
  have henter : t'.enterShared = t.enterShared := by
    funext table p
    simp only [enterShared, h.children_eq, hshared]
  rw [styleCollisions, styleCollisions, h.all_eq, henter]

/-! ## Reading the table at a place -/

theorem mem_edges_iff {e : Nat × Nat} : e ∈ (ofLayer l).edges ↔
    ∃ q ∈ (Place.top l).all, ∃ c ∈ q.children, e = (q.position, c.position) := by
  rw [edges, List.mem_flatMap]
  refine ⟨?_, ?_⟩
  · rintro ⟨p, hp, he⟩
    rw [all_eq_range, List.mem_range, ← size_ofLayer] at hp
    obtain ⟨q, hq, rfl⟩ := exists_place hp
    rw [children_eq hq, List.map_map] at he
    obtain ⟨c, hc, rfl⟩ := List.mem_map.mp he
    exact ⟨q, hq, c, hc, rfl⟩
  · rintro ⟨q, hq, c, hc, rfl⟩
    refine ⟨q.position, ?_, ?_⟩
    · rw [all_eq_range, List.mem_range, ← size_ofLayer]
      exact position_lt_size hq
    · rw [children_eq hq, List.map_map]
      exact List.mem_map_of_mem (f := (fun c : Place => (q.position, c.position))) hc

theorem lookup_styleCollisions_top : (ofLayer l).styleCollisions.lookup 0 = none := by
  have hnone : ∀ e ∈ (ofLayer l).edges, e.2 ≠ 0 := by
    intro e he
    obtain ⟨q, -, c, hc, rfl⟩ := mem_edges_iff.mp he
    exact Nat.ne_of_gt (Nat.lt_of_le_of_lt (Nat.zero_le _) (Place.position_lt_of_mem_children hc))
  rw [styleCollisions_eq, lookup_foldl_enterEdge (p := 0) _ _ _ fun e he h => absurd h (hnone e he),
    if_neg fun h => hnone _ h.1 rfl]
  rfl

/-- **The entry of a layer is what it shares with its parent.** -/
theorem lookup_styleCollisions_child (hq : q ∈ (Place.top l).all) (hc : c ∈ q.children) :
    (ofLayer l).styleCollisions.lookup c.position
      = if (ofLayer l).sharedStyles q.position c.position ≠ [] then
          some ((ofLayer l).sharedStyles q.position c.position)
        else none := by
  have hunique : ∀ e ∈ (ofLayer l).edges, e.2 = c.position → e.1 = q.position := by
    intro e he hpos
    obtain ⟨r, hr, d, hd, rfl⟩ := mem_edges_iff.mp he
    obtain rfl := Place.eq_of_position_eq (Place.mem_all_of_mem_children hr hd)
      (Place.mem_all_of_mem_children hq hc) hpos
    have hparent := (Place.parent_of_mem_children hd).symm.trans (Place.parent_of_mem_children hc)
    exact Option.some.inj hparent
  have hmem : (q.position, c.position) ∈ (ofLayer l).edges := mem_edges_iff.mpr ⟨q, hq, c, hc, rfl⟩
  rw [styleCollisions_eq, lookup_foldl_enterEdge _ _ _ hunique]
  simp [hmem]

theorem sharedStyles_eq_nil_iff (hq : q ∈ (Place.top l).all) (hc : c ∈ q.children) :
    (ofLayer l).sharedStyles q.position c.position = [] ↔
      ∀ st ∈ c.layer.attributes.styles, ∀ other ∈ q.layer.attributes.styles,
        st.name ≠ other.name := by
  rw [sharedStyles, attributes_eq hq, attributes_eq (Place.mem_all_of_mem_children hq hc),
    List.map_eq_nil_iff, List.filter_eq_nil_iff]
  refine forall₂_congr fun st _ => ?_
  rw [Attributes.style?, List.find?_isSome]
  simp only [beq_iff_eq, not_exists, not_and]
  exact forall₂_congr fun other _ => ne_comm

end Arena

end MapLayers
