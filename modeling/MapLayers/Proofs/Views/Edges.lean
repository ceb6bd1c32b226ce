import MapLayers.Proofs.Layout.Encoding
import MapLayers.Proofs.Views.Collisions
import MapLayers.Samples

/-!
# Each edge is compared once

The table of shared styles is filled in one pass over the edges from layers to their children.
Every layer but the top is the end of exactly one edge, the one from its parent
(`Arena.nodup_children_edges`), so it gets its entry when that edge is met, and no later edge
touches it: nothing that has been entered is overwritten (`Arena.mem_foldl_enterEdge_append`).
Hence the entry of a layer says what it shares with its parent, and follows from the style names of
these two alone (`Hierarchy.comparesEdges`).

`Arena.ComparesEdges` says this of the run as well as of its result.  When an edge is met there is
no entry for its end yet, and what some edges have led to is there after all of them.  In the
result, the layers with an entry are those that have a style name in common with their parents
(`Arena.mem_keys_styleCollisions_iff`), they come in pre-order, and no entry is empty.

The last field compares two trees.  When a layer of one and a layer of the other have the same style
names, and so have their parents, their entries say the same, whatever else the trees are like.
-/

set_option autoImplicit false

namespace MapLayers

namespace Arena

/-- The names of the styles of a layer, in order. -/
def styleNames (t : Arena) (k : Nat) : List String := (t.attributes k).styles.map Style.name

/-- The table of shared styles is filled edge by edge, and each entry is about one edge. -/
structure ComparesEdges (t : Arena) : Prop where
  /-- The edges are those from parents to their children. -/
  edge : ∀ p k, (p, k) ∈ t.edges ↔ t.parent k = some p
  /-- Every layer but the top is at the end of an edge, and of no second one. -/
  reached : (t.edges.map Prod.snd).Nodup ∧
    ∀ k, k ∈ t.edges.map Prod.snd ↔ k < t.size ∧ k ≠ top
  /-- The table is filled by entering one edge after the other. -/
  filled : t.styleCollisions = t.edges.foldl t.enterEdge []
  /-- When an edge is entered there is no entry for its end yet. -/
  fresh : ∀ before e after, t.edges = before ++ e :: after →
    e.2 ∉ (before.foldl t.enterEdge []).map Prod.fst
  /-- What has been entered is not changed any more. -/
  kept : ∀ before after, t.edges = before ++ after →
    ∀ x ∈ before.foldl t.enterEdge [], x ∈ t.styleCollisions
  /-- The layers with an entry are those that have a style name in common with their parents. -/
  keys : ∀ k, k ∈ t.styleCollisions.map Prod.fst ↔
    k ≠ top ∧ ∃ p, t.parent k = some p ∧ ∃ n ∈ t.styleNames k, n ∈ t.styleNames p
  /-- The entry of a layer has all its style names that are among those of the parent, in its own
  order and as often as it has them. -/
  values : ∀ k names, (k, names) ∈ t.styleCollisions → ∃ p, t.parent k = some p ∧
    names = (t.styleNames k).filter (· ∈ t.styleNames p)
  /-- The layers with an entry come in pre-order, each of them once. -/
  preorder : (t.styleCollisions.map Prod.fst).Sublist t.all ∧
    (t.styleCollisions.map Prod.fst).Pairwise (· < ·)
  /-- The entry of a layer follows from its own style names and from those of its parent: a layer of
  any other tree that agrees in these has the same. -/
  localEntry : ∀ (l' : Layer) (k p k' p' : Nat), t.parent k = some p →
    (ofLayer l').parent k' = some p' → (ofLayer l').styleNames k' = t.styleNames k →
      (ofLayer l').styleNames p' = t.styleNames p →
        (ofLayer l').styleCollisions.lookup k' = t.styleCollisions.lookup k

/-! ## Entering edges

What is known of a table that is filled from any list of edges no two of which have the same end. -/

section

variable {t : Arena} {es before after : List (Nat × Nat)} {table : List (Nat × List String)}
  {e : Nat × Nat} {k : Nat}

theorem mem_keys_enterEdge (h : k ∈ (t.enterEdge table e).map Prod.fst) :
    k = e.2 ∨ k ∈ table.map Prod.fst := by
  rw [enterEdge] at h
  split at h
  · exact Or.inr h
  · exact mem_keys_insertByKey.mp h

/-- Only the ends of edges get entries. -/
theorem mem_keys_foldl_enterEdge (h : k ∈ (es.foldl t.enterEdge table).map Prod.fst) :
    k ∈ es.map Prod.snd ∨ k ∈ table.map Prod.fst := by
  induction es generalizing table with
  | nil => exact Or.inr h
  | cons e es ih =>
    rw [List.map_cons, List.mem_cons]
    rcases ih h with hes | htable
    · exact Or.inl (Or.inr hes)
    · exact (mem_keys_enterEdge htable).imp_left Or.inl

/-- The entry of a layer is left alone by edges that do not end there. -/
theorem lookup_foldl_enterEdge_of_not_mem (h : k ∉ es.map Prod.snd) :
    (es.foldl t.enterEdge table).lookup k = table.lookup k := by
  have hnone : ∀ e ∈ es, e.2 ≠ k := fun e he hk => h (hk ▸ List.mem_map_of_mem he)
  rw [lookup_foldl_enterEdge t (p := 0) es table fun e he hk => absurd hk (hnone e he),
    if_neg fun hmem => hnone _ hmem.1 rfl]

section

variable (hnd : ((before ++ after).map Prod.snd).Nodup)

include hnd

/-- **Where no two edges have the same end**, an edge is entered where there is no entry. -/
theorem not_mem_keys_foldl_enterEdge (he : e ∈ after) :
    e.2 ∉ (before.foldl t.enterEdge []).map Prod.fst := by
  intro hmem
  rw [List.map_append] at hnd
  rcases mem_keys_foldl_enterEdge hmem with hbefore | hnil
  · exact List.disjoint_of_nodup_append hnd hbefore (List.mem_map_of_mem he)
  · cases hnil

/-- **Nothing is overwritten**: what some edges have led to is there after all of them. -/
theorem mem_foldl_enterEdge_append {x : Nat × List String}
    (hx : x ∈ before.foldl t.enterEdge []) : x ∈ (before ++ after).foldl t.enterEdge [] := by
  have hafter : x.1 ∉ after.map Prod.snd := by
    intro hmem
    obtain ⟨e, he, heq⟩ := List.mem_map.mp hmem
    refine not_mem_keys_foldl_enterEdge (t := t) hnd he ?_
    rw [heq]
    exact List.mem_map_of_mem hx
  have hnodup (es : List (Nat × Nat)) : ((es.foldl t.enterEdge []).map Prod.fst).Nodup :=
    (pairwise_keys_foldl_enterEdge t es).imp Nat.ne_of_lt
  rw [← lookup_eq_some_iff_mem (hnodup _), List.foldl_append,
    lookup_foldl_enterEdge_of_not_mem hafter, lookup_eq_some_iff_mem (hnodup _)]
  exact hx

end

end

/-! ## The edges of a tree

The edges of a tree are such a list, since a layer has one parent and is listed once among its
children. -/

section

variable {l : Layer} {k p : Nat}

theorem mem_edges_iff_parent : (p, k) ∈ (ofLayer l).edges ↔ (ofLayer l).parent k = some p := by
  rw [mem_edges_iff, parent_eq_some_iff]
  refine ⟨?_, ?_⟩
  · rintro ⟨q, hq, c, hc, heq⟩
    obtain ⟨rfl, rfl⟩ := Prod.mk.inj heq
    exact ⟨q, hq, rfl, c, hc, rfl⟩
  · rintro ⟨q, hq, rfl, c, hc, rfl⟩
    exact ⟨q, hq, c, hc, rfl⟩

/-- **No two edges have the same end.** -/
theorem nodup_children_edges (l : Layer) : ((ofLayer l).edges.map Prod.snd).Nodup := by
  have hchildren : (ofLayer l).edges.map Prod.snd
      = (ofLayer l).all.flatMap (ofLayer l).children := by
    rw [edges, List.map_flatMap]
    refine List.flatMap_congr fun p _ => ?_
    rw [List.map_map]
    exact List.map_id _
  have hall : (ofLayer l).all.Nodup := by
    rw [all_eq_range]
    exact List.nodup_range
  rw [hchildren]
  exact nodup_flatMap_children hall fun p hp => mem_all_iff.mp hp

/-- The ends of edges are all layers but the top. -/
theorem mem_children_edges_iff :
    k ∈ (ofLayer l).edges.map Prod.snd ↔ k < (ofLayer l).size ∧ k ≠ top := by
  rw [List.mem_map]
  refine ⟨?_, fun ⟨hk, hne⟩ => ?_⟩
  · rintro ⟨⟨p, c⟩, he, rfl⟩
    have hparent := mem_edges_iff_parent.mp he
    have hlt := (encodes l).parent_lt c p hparent
    exact ⟨lt_size_of_parent hparent, Nat.ne_of_gt (Nat.zero_lt_of_lt hlt)⟩
  · have hparent : (ofLayer l).parent k ≠ none := mt ((encodes l).top k hk).mp hne
    obtain ⟨p, hp⟩ := Option.ne_none_iff_exists'.mp hparent
    exact ⟨(p, k), mem_edges_iff_parent.mpr hp, rfl⟩

end

/-! ## Entries -/

section

variable {l : Layer} {k p : Nat} {names : List String}

theorem collision?_of_parent {t : Arena} (h : t.parent k = some p) : t.collision? k
    = if (t.styleNames k).filter (· ∈ t.styleNames p) = [] then none
      else some ((t.styleNames k).filter (· ∈ t.styleNames p)) := by
  rw [collision?, sharedWithParent, h, Option.elim_some, sharedStyles_eq_filter]
  rfl

/-- A layer has an entry when a style name is in common, and then it says all of them. -/
theorem collision?_eq_some_iff {t : Arena} : t.collision? k = some names ↔
    ∃ p, t.parent k = some p ∧ (∃ n ∈ t.styleNames k, n ∈ t.styleNames p) ∧
      names = (t.styleNames k).filter (· ∈ t.styleNames p) := by
  cases hparent : t.parent k with
  | none =>
    have hnone : t.collision? k = none := by
      rw [collision?, sharedWithParent, hparent]
      rfl
    rw [hnone]
    refine ⟨fun hsome => absurd hsome (by simp), ?_⟩
    rintro ⟨_, hp, -⟩
    cases hp
  | some p =>
    have hnil : (t.styleNames k).filter (· ∈ t.styleNames p) ≠ [] ↔
        ∃ n ∈ t.styleNames k, n ∈ t.styleNames p := by
      rw [Ne, List.filter_eq_nil_iff]
      simp
    rw [collision?_of_parent hparent]
    split
    · rename_i h
      refine ⟨fun hsome => absurd hsome (by simp), ?_⟩
      rintro ⟨_, hp, hcommon, -⟩
      cases hp
      exact absurd h (hnil.mpr hcommon)
    · rename_i h
      refine ⟨fun hsome => ⟨p, rfl, hnil.mp h, (Option.some.inj hsome).symm⟩, ?_⟩
      rintro ⟨_, hp, -, rfl⟩
      cases hp
      rfl

theorem mem_styleCollisions_iff :
    (k, names) ∈ (ofLayer l).styleCollisions ↔ (ofLayer l).collision? k = some names := by
  rw [styleCollisions_eq_filterMap, List.mem_filterMap]
  refine ⟨?_, fun h => ?_⟩
  · rintro ⟨j, -, hj⟩
    obtain ⟨_, hsome, heq⟩ := Option.map_eq_some_iff.mp hj
    obtain ⟨rfl, rfl⟩ := Prod.mk.inj heq
    exact hsome
  · obtain ⟨p, hp, -⟩ := collision?_eq_some_iff.mp h
    exact ⟨k, mem_all_iff.mpr (lt_size_of_parent hp), by rw [h]; rfl⟩

/-- **The layers with an entry** are those that have a style name in common with their parents. -/
theorem mem_keys_styleCollisions_iff : k ∈ (ofLayer l).styleCollisions.map Prod.fst ↔
    k ≠ top ∧ ∃ p, (ofLayer l).parent k = some p ∧
      ∃ n ∈ (ofLayer l).styleNames k, n ∈ (ofLayer l).styleNames p := by
  rw [List.mem_map]
  refine ⟨?_, ?_⟩
  · rintro ⟨⟨j, names⟩, hmem, rfl⟩
    obtain ⟨p, hp, hcommon, -⟩ := collision?_eq_some_iff.mp (mem_styleCollisions_iff.mp hmem)
    have hlt := (encodes l).parent_lt j p hp
    exact ⟨Nat.ne_of_gt (Nat.zero_lt_of_lt hlt), p, hp, hcommon⟩
  · rintro ⟨-, p, hp, hcommon⟩
    exact ⟨(k, _), mem_styleCollisions_iff.mpr (collision?_eq_some_iff.mpr ⟨p, hp, hcommon, rfl⟩),
      rfl⟩

/-- The entry of a layer follows from two lists of names. -/
theorem lookup_styleCollisions_of_parent (h : (ofLayer l).parent k = some p) :
    (ofLayer l).styleCollisions.lookup k
      = if ((ofLayer l).styleNames k).filter (· ∈ (ofLayer l).styleNames p) = [] then none
        else some (((ofLayer l).styleNames k).filter (· ∈ (ofLayer l).styleNames p)) := by
  rw [lookup_styleCollisions (lt_size_of_parent h), collision?_of_parent h]

theorem keys_sublist_all (l : Layer) :
    ((ofLayer l).styleCollisions.map Prod.fst).Sublist (ofLayer l).all := by
  rw [styleCollisions_eq_filterMap, keys_filterMap]
  exact List.filter_sublist

end

end Arena

/-- **Styles are compared edge by edge.** -/
theorem Hierarchy.comparesEdges (l : Layer) (primary : Crs) :
    (ofLayer l primary).ComparesEdges where
  edge _ _ := Arena.mem_edges_iff_parent
  reached := ⟨Arena.nodup_children_edges l, fun _ => Arena.mem_children_edges_iff⟩
  filled := Arena.styleCollisions_eq _
  fresh before e after hsplit := by
    have hnd := Arena.nodup_children_edges l
    rw [show (Arena.ofLayer l).edges = _ from hsplit] at hnd
    exact Arena.not_mem_keys_foldl_enterEdge hnd List.mem_cons_self
  kept before after hsplit x hx := by
    have hnd := Arena.nodup_children_edges l
    rw [show (Arena.ofLayer l).edges = _ from hsplit] at hnd
    rw [Arena.styleCollisions_eq, hsplit]
    exact Arena.mem_foldl_enterEdge_append hnd hx
  keys _ := Arena.mem_keys_styleCollisions_iff
  values k names hmem := by
    obtain ⟨p, hp, -, hnames⟩ :=
      Arena.collision?_eq_some_iff.mp (Arena.mem_styleCollisions_iff.mp hmem)
    exact ⟨p, hp, hnames⟩
  preorder := ⟨Arena.keys_sublist_all l, Arena.pairwise_keys_styleCollisions _⟩
  localEntry l' k p k' p' hp hp' hown hparent := by
    have h : (ofLayer l primary).styleCollisions.lookup k = _ :=
      Arena.lookup_styleCollisions_of_parent hp
    rw [h, Arena.lookup_styleCollisions_of_parent hp', hown, hparent]
    rfl

example : (Hierarchy.ofLayer Samples.collisions .standard).styleCollisions
    = [(1, ["s2"]), (2, ["s3"])] := by decide +kernel

end MapLayers
