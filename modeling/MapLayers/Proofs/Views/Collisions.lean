import MapLayers.Proofs.Views.Shared
import MapLayers.Proofs.Views.Tables

/-!
# Collisions, layer by layer

The table of shared styles is filled parent by parent, and in the order of the positions of the
children.  Since every layer but the top has one parent, the table can be read off the layers: in
pre-order, each layer that shares styles with its parent, with these styles
(`Arena.styleCollisions_eq_filterMap`).  The styles that a legend cleanup is about are found by
looking the shared names up in the child again, which finds the first style of each name
(`Arena.legendCleanup_eq_map`).

The check and the cleanup both go through this table, the one layer by layer and the other entry by
entry.  `Arena.lookup_styleCollisions` and `Arena.flatMap_styleCollisions` bring both to the same
form, in which each layer contributes what it shares with its parent (`Arena.sharedWithParent`).

`Arena.stylesInCommon` are the styles themselves where the table has names.  Their names are those
that are shared, as often as they occur in the layer (`Arena.names_stylesInCommon`).
-/

set_option autoImplicit false

namespace MapLayers

theorem flatMap_filter {α β : Type} (p : α → Bool) (f : α → List β) (xs : List α) :
    (xs.filter p).flatMap f = xs.flatMap fun x => if p x then f x else [] := by
  induction xs with
  | nil => rfl
  | cons x xs ih => cases hp : p x <;> simp [hp, ih]

namespace Arena

variable {l : Layer} {k : Nat}

/-- The names of the styles that a layer shares with its parent. -/
def sharedWithParent (t : Arena) (k : Nat) : List String :=
  (t.parent k).elim [] fun p => t.sharedStyles p k

/-- The entry of a layer in the table of shared styles. -/
def collision? (t : Arena) (k : Nat) : Option (List String) :=
  if t.sharedWithParent k = [] then none else some (t.sharedWithParent k)

theorem getD_collision? (t : Arena) (k : Nat) :
    (t.collision? k).getD [] = t.sharedWithParent k := by
  rw [collision?]
  split
  · rename_i h
    rw [h]
    rfl
  · rfl

/-! ## The table

The entries of a table that is filled edge by edge are the layers at the ends of the edges, put in
order.  A table in order is known by what can be looked up in it, which turns the comparison into
one lookup for each layer. -/

/-- What is entered, edge by edge, as entries of a table. -/
theorem foldl_enterEdge (t : Arena) (es : List (Nat × Nat)) (table : List (Nat × List String)) :
    es.foldl t.enterEdge table
      = ((es.map fun e => (e.2, t.sharedStyles e.1 e.2)).filter fun e => !e.2.isEmpty).foldl
          setEntry table := by
  induction es generalizing table with
  | nil => rfl
  | cons e es ih =>
    rw [List.foldl_cons, ih, List.map_cons, List.filter_cons, enterEdge]
    cases t.sharedStyles e.1 e.2 <;> rfl

theorem pairwise_keys_foldl_enterEdge (t : Arena) (es : List (Nat × Nat)) :
    ((es.foldl t.enterEdge []).map Prod.fst).Pairwise (· < ·) := by
  rw [foldl_enterEdge]
  exact pairwise_keys_foldl_setEntry List.Pairwise.nil

theorem pairwise_keys_styleCollisions (t : Arena) :
    (t.styleCollisions.map Prod.fst).Pairwise (· < ·) := by
  rw [styleCollisions_eq]
  exact pairwise_keys_foldl_enterEdge t t.edges

/-- **What can be looked up for a layer** is what it shares with its parent. -/
theorem lookup_styleCollisions (h : k < (ofLayer l).size) :
    (ofLayer l).styleCollisions.lookup k = (ofLayer l).collision? k := by
  obtain ⟨q, hq, rfl⟩ := exists_place h
  rw [collision?, sharedWithParent, parent_eq hq]
  rcases Place.eq_or_mem_children hq with rfl | ⟨r, hr, hqr⟩
  · exact lookup_styleCollisions_top
  · rw [lookup_styleCollisions_child hr hqr, Place.parent_of_mem_children hqr, ite_not]
    rfl

/-- There is no entry beyond the layers. -/
theorem lookup_styleCollisions_of_le (h : (ofLayer l).size ≤ k) :
    (ofLayer l).styleCollisions.lookup k = none := by
  have hnone : ∀ e ∈ (ofLayer l).edges, e.2 ≠ k := by
    intro e he
    obtain ⟨q, hq, c, hc, rfl⟩ := mem_edges_iff.mp he
    exact Nat.ne_of_lt (Nat.lt_of_lt_of_le
      (position_lt_size (Place.mem_all_of_mem_children hq hc)) h)
  rw [styleCollisions_eq,
    lookup_foldl_enterEdge (p := 0) _ _ _ fun e he hk => absurd hk (hnone e he),
    if_neg fun hmem => hnone _ hmem.1 rfl]
  rfl

/-- **The table of shared styles lists the layers that share styles with their parents**, in
pre-order. -/
theorem styleCollisions_eq_filterMap (l : Layer) : (ofLayer l).styleCollisions
    = (ofLayer l).all.filterMap fun k => ((ofLayer l).collision? k).map (k, ·) := by
  refine eq_of_lookup (pairwise_keys_styleCollisions _) ?_ fun k => ?_
  · rw [keys_filterMap, all_eq_range]
    exact List.pairwise_lt_range.filter _
  · rw [lookup_filterMap]
    by_cases h : k < (ofLayer l).size
    · rw [if_pos (mem_all_iff.mpr h), lookup_styleCollisions h]
    · rw [if_neg (mt mem_all_iff.mp h), lookup_styleCollisions_of_le (Nat.le_of_not_lt h)]

/-- Going through the table is going through the layers. -/
theorem flatMap_styleCollisions {α : Type} (f : Nat → List String → List α)
    (hf : ∀ k, f k [] = []) : ((ofLayer l).styleCollisions.flatMap fun e => f e.1 e.2)
      = (ofLayer l).all.flatMap fun k => f k ((ofLayer l).sharedWithParent k) := by
  rw [styleCollisions_eq_filterMap]
  induction (ofLayer l).all with
  | nil => rfl
  | cons k ks ih =>
    rw [List.filterMap_cons, List.flatMap_cons, ← ih, collision?]
    by_cases h : (ofLayer l).sharedWithParent k = []
    · rw [h, hf]
      rfl
    · rw [if_neg h]
      rfl

/-! ## The styles in common -/

/-- The styles of a layer whose names are those of styles of its parent, in order. -/
def stylesInCommon (t : Arena) (k : Nat) : List Style :=
  (t.attributes k).styles.filter fun st =>
    (t.parent k).any fun p => st.name ∈ (t.attributes p).styles.map Style.name

/-- All styles that layers have in common with their parents, layer by layer. -/
def allInCommon (t : Arena) : List LayerStyle :=
  t.all.flatMap fun k => (t.stylesInCommon k).map (LayerStyle.mk k)

/-- The styles in common have the names that are shared. -/
theorem names_stylesInCommon (t : Arena) (k : Nat) :
    (t.stylesInCommon k).map Style.name = t.sharedWithParent k := by
  rw [stylesInCommon, sharedWithParent]
  cases t.parent k with
  | none => exact congrArg (List.map _) (List.filter_eq_nil_iff.mpr fun _ _ => Bool.false_ne_true)
  | some p =>
    rw [Option.elim_some, sharedStyles_eq_filter, List.filter_map]
    rfl

theorem mem_allInCommon_iff {t : Arena} {e : LayerStyle} :
    e ∈ t.allInCommon ↔ e.layer ∈ t.all ∧ e.style ∈ t.stylesInCommon e.layer := by
  rw [allInCommon, List.mem_flatMap]
  refine ⟨?_, fun h => ⟨e.layer, h.1, List.mem_map_of_mem h.2⟩⟩
  rintro ⟨k, hk, he⟩
  obtain ⟨st, hst, rfl⟩ := List.mem_map.mp he
  exact ⟨hk, hst⟩

theorem mem_styles_of_mem_allInCommon {t : Arena} {e : LayerStyle} (he : e ∈ t.allInCommon) :
    e.style ∈ (t.attributes e.layer).styles :=
  (List.mem_filter.mp (mem_allInCommon_iff.mp he).2).1

end Arena

/-! ## Looking the names up again

A name is taken from a style of the layer, so looking it up finds a style; it may be another one,
further to the front. -/

theorem Attributes.exists_style?_name {a : Attributes} {st : Style} (hst : st ∈ a.styles) :
    ∃ first ∈ a.styles, first.name = st.name ∧ a.style? st.name = some first := by
  obtain ⟨first, hfirst⟩ :=
    Option.isSome_iff_exists.mp (isSome_style?_iff.mpr (List.mem_map_of_mem hst))
  have hname := List.find?_some hfirst
  rw [beq_iff_eq] at hname
  exact ⟨first, List.mem_of_find?_eq_some hfirst, hname, hfirst⟩

/-- The layer and the name of a style. -/
def LayerStyle.key (s : LayerStyle) : Nat × String := (s.layer, s.style.name)

namespace Arena

variable {l : Layer} {k : Nat}

/-- The first style of the name of a style in its layer. -/
def firstNamed (t : Arena) (e : LayerStyle) : LayerStyle :=
  ⟨e.layer, ((t.attributes e.layer).style? e.style.name).getD e.style⟩

theorem key_firstNamed {t : Arena} {e : LayerStyle} (he : e ∈ t.allInCommon) :
    (t.firstNamed e).key = e.key := by
  obtain ⟨first, -, hname, hfirst⟩ :=
    Attributes.exists_style?_name (mem_styles_of_mem_allInCommon he)
  rw [firstNamed, hfirst]
  exact congrArg (Prod.mk e.layer) hname

/-- Looking up the shared names finds the first styles of these names. -/
theorem filterMap_style?_sharedWithParent (t : Arena) (k : Nat) :
    ((t.sharedWithParent k).filterMap (t.attributes k).style?).map (LayerStyle.mk k)
      = ((t.stylesInCommon k).map (LayerStyle.mk k)).map t.firstNamed := by
  have hfound : ∀ st ∈ t.stylesInCommon k, (t.attributes k).style? st.name
      = some (((t.attributes k).style? st.name).getD st) := by
    intro st hst
    obtain ⟨first, -, -, hfirst⟩ := Attributes.exists_style?_name (List.mem_filter.mp hst).1
    rw [hfirst]
    rfl
  rw [← names_stylesInCommon, List.filterMap_map, List.map_map]
  refine (congrArg _ (List.filterMap_congr hfound)).trans ?_
  rw [List.filterMap_eq_map', List.map_map]
  rfl

/-- **The cleanup lists first styles**: for each style in common, that of its name. -/
theorem legendCleanup_eq_map (l : Layer) {s : Settings} (hs : s.cleansSharedStyles = true) :
    (ofLayer l).legendCleanup s = (ofLayer l).allInCommon.map (ofLayer l).firstNamed := by
  have hflat := flatMap_styleCollisions (l := l)
    (fun k names => (names.filterMap ((ofLayer l).attributes k).style?).map (LayerStyle.mk k))
    fun _ => rfl
  rw [legendCleanup, if_pos hs, allInCommon, List.map_flatMap]
  exact hflat.trans (List.flatMap_congr fun k _ => filterMap_style?_sharedWithParent _ k)

/-- **The cleanup is about the names that layers share with their parents**, layer by layer. -/
theorem names_legendCleanup (l : Layer) (s : Settings) (h : s.cleansSharedStyles = true) :
    ((ofLayer l).legendCleanup s).map LayerStyle.key
      = (ofLayer l).all.flatMap fun k => ((ofLayer l).sharedWithParent k).map (k, ·) := by
  have hkeys : ((ofLayer l).allInCommon.map (ofLayer l).firstNamed).map LayerStyle.key
      = (ofLayer l).allInCommon.map LayerStyle.key := by
    rw [List.map_map]
    exact List.map_congr_left fun e he => key_firstNamed he
  rw [legendCleanup_eq_map l h, hkeys, allInCommon, List.map_flatMap]
  refine List.flatMap_congr fun k _ => ?_
  rw [← names_stylesInCommon, List.map_map, List.map_map]
  rfl

end Arena

end MapLayers
