import Mathlib.Data.List.Nodup
import MapLayers.Evaluation
import MapLayers.Proofs.Check.Acceptance
import MapLayers.Proofs.Layout.Encoding
import MapLayers.Proofs.Views.Tables
import MapLayers.Samples

/-!
# Names and routing after acceptance

Consumers address layers by name, and route requests for a group to the data layers directly below
it.  Neither is safe in general: a name may occur twice or not at all, and an entry of the routing
table may then be overwritten, or never be made.  What makes it safe is the check.  In a hierarchy
without errors every layer but the top has a name, and no name occurs twice, so looking up a name
finds the layer that has it, and the routing table has one entry for each group
(`Evaluation.routed_of_accepted`).

* `Arena.Named` says that layers can be told apart, and found, by name.  It is what acceptance gives
  (`Evaluation.named_of_accepted`), and all that is used of it.
* `Arena.Routed` says what the routing table has then: an entry for each group, with the names of
  the data layers directly below it, in the order of the names of the groups and none twice.

Under these names no entry is overwritten (`Arena.Named.perm_routing`), and all names in the table
together are those of the data layers below groups, each of them once (`Arena.Named.perm_leaves`).
The top layer need not have a name and is not routed.
-/

set_option autoImplicit false

namespace MapLayers

namespace Arena

/-- The groups, in pre-order. -/
def groups (t : Arena) : List Nat := (List.range t.size).filter fun k => t.role k == .group

/-- The data layers directly below a layer, in order. -/
def dataChildren (t : Arena) (k : Nat) : List Nat :=
  (t.children k).filter fun c => t.role c == .data

/-- An entry for a group: its name, with the names of the data layers directly below it. -/
structure IsRoute (t : Arena) (group : Nat) (entry : String × List String) : Prop where
  name : t.name group = some entry.1
  leaves : (t.dataChildren group).map t.name = entry.2.map some

/-- Layers can be told apart, and found, by name. -/
structure Named (t : Arena) : Prop where
  /-- Every layer but the top has a name, and not an empty one. -/
  named : ∀ k, k < t.size → k ≠ top → ∃ n, t.name k = some n ∧ n ≠ ""
  /-- The layer that is found by a name is the one that has it. -/
  found : ∀ k n, t.name k = some n → t.findByName n = some k

/-- A table leads from each group to the data layers directly below it. -/
structure Routed (t : Arena) (table : List (String × List String)) : Prop where
  /-- There is one entry for each group, and no other. -/
  entries : ∃ routes, table.Perm routes ∧ List.Forall₂ t.IsRoute t.groups routes
  /-- The entries are in the order of their keys, and no key occurs twice. -/
  keys : (table.map Prod.fst).Pairwise (· < ·)
  /-- The name of the top layer is not a key. -/
  notTop : ∀ n, t.name top = some n → n ∉ table.map Prod.fst
  /-- A data layer directly below a group is listed once. -/
  once : ∀ k p, t.role k = .data → t.parent k = some p → t.role p = .group →
    ∃ n, t.name k = some n ∧ (table.flatMap Prod.snd).count n = 1
  /-- Nothing else is listed. -/
  only : ∀ n ∈ table.flatMap Prod.snd, ∃ k p, t.name k = some n ∧ t.role k = .data ∧
    t.parent k = some p ∧ t.role p = .group

/-! ## Children -/

section

variable {l : Layer} {k p c : Nat}

theorem lt_size_of_name {t : Arena} {n : String} (h : t.name k = some n) : k < t.size := by
  by_contra hge
  rw [name, attributes, Array.getElem?_eq_none (Nat.le_of_not_lt hge)] at h
  cases h

theorem mem_dataChildren_iff (hp : p < (ofLayer l).size) : c ∈ (ofLayer l).dataChildren p ↔
    (ofLayer l).parent c = some p ∧ (ofLayer l).role c = .data := by
  rw [dataChildren, List.mem_filter, mem_children_iff hp, beq_iff_eq]

theorem mem_groups_iff {t : Arena} : p ∈ t.groups ↔ p < t.size ∧ t.role p = .group := by
  rw [groups, List.mem_filter, List.mem_range, beq_iff_eq]

/-- **No data layer is below two groups.** -/
theorem nodup_dataChildren : ((ofLayer l).groups.flatMap (ofLayer l).dataChildren).Nodup := by
  have hgroups : (ofLayer l).groups.Nodup := List.nodup_range.filter _
  have hchildren := nodup_flatMap_children hgroups fun p hp => (mem_groups_iff.mp hp).1
  have hdata := hchildren.filter fun c => (ofLayer l).role c == .data
  rw [List.filter_flatMap] at hdata
  exact hdata

end

/-! ## Roles and parents -/

section

variable {l : Layer} {k p c : Nat}

theorem role_eq_top_iff (hk : k < (ofLayer l).size) : (ofLayer l).role k = .top ↔ k = top := by
  obtain ⟨q, hq, rfl⟩ := exists_place hk
  rw [role_eq hq, Place.role_eq_top_iff, Place.parent_top_iff hq]
  rfl

theorem ne_top_of_mem_groups (h : k ∈ (ofLayer l).groups) : k ≠ top := by
  rintro rfl
  obtain ⟨hk, hrole⟩ := mem_groups_iff.mp h
  rw [(role_eq_top_iff hk).mpr rfl] at hrole
  cases hrole

theorem bounds_of_parent (h : (ofLayer l).parent c = some p) :
    p < (ofLayer l).size ∧ c < (ofLayer l).size ∧ c ≠ top := by
  obtain ⟨q, hq, rfl, d, hd, rfl⟩ := parent_eq_some_iff.mp h
  have hlt := Place.position_lt_of_mem_children hd
  refine ⟨position_lt_size hq, position_lt_size (Place.mem_all_of_mem_children hq hd), ?_⟩
  exact Nat.ne_of_gt (Nat.lt_of_le_of_lt (Nat.zero_le _) hlt)

end

/-! ## Names that do not repeat

The check speaks of names that are not empty, and lookups compare any names.  What closes the gap is
that an empty name can only be that of the top layer. -/

section

variable {l : Layer}
  (hnames : ∀ k, k < (ofLayer l).size → (ofLayer l).role k ≠ .top →
    ((ofLayer l).attributes k).properName ≠ none)
  (hnd : ((ofLayer l).all.filterMap fun k => ((ofLayer l).attributes k).properName).Nodup)

include hnd in
/-- A name that is not empty is that of one layer. -/
theorem eq_of_properName {j k : Nat} {n : String}
    (hj : ((ofLayer l).attributes j).properName = some n)
    (hk : ((ofLayer l).attributes k).properName = some n) : j = k := by
  have hlt : ∀ {i}, ((ofLayer l).attributes i).properName = some n → i < l.count := by
    intro i hi
    rw [← size_ofLayer]
    exact lt_size_of_name (Attributes.properName_eq_some_iff.mp hi).1
  have hne : ∀ {i j : Nat}, i < j → ((ofLayer l).attributes i).properName = some n →
      ((ofLayer l).attributes j).properName ≠ some n := by
    intro i j hij hi hj
    rw [all_eq_range, List.nodup_iff_pairwise_ne, List.pairwise_filterMap] at hnd
    have hpair := List.pairwise_iff_getElem.mp hnd i j (by simpa using hlt hi)
      (by simpa using hlt hj) hij
    rw [List.getElem_range, List.getElem_range] at hpair
    exact hpair n hi n hj rfl
  rcases Nat.lt_trichotomy j k with h | h | h
  · exact absurd hk (hne h hj)
  · exact h
  · exact absurd hj (hne h hk)

include hnames in
theorem exists_name {k : Nat} (hk : k < (ofLayer l).size) (hne : k ≠ top) :
    ∃ n, (ofLayer l).name k = some n ∧ n ≠ "" := by
  have hproper := hnames k hk (mt (role_eq_top_iff hk).mp hne)
  rwa [Attributes.properName_ne_none_iff] at hproper

include hnames hnd

/-- **Layers are named** when all names but that of the top layer are proper, and no proper name
occurs twice.  An empty name can then only be that of the top layer, which is the first to be
found. -/
theorem named_of_properNames : (ofLayer l).Named where
  named k hk hne := exists_name hnames hk hne
  found k n hk := by
    have hsize := lt_size_of_name hk
    have hname : ∀ {j} (hj : j < (ofLayer l).nodes.toList.length),
        ((ofLayer l).nodes.toList[j].attributes.name == some n) = true ↔
          (ofLayer l).name j = some n := by
      intro j hj
      rw [beq_iff_eq, name, attributes, ← Array.getElem?_toList, List.getElem?_eq_getElem hj]
      rfl
    rw [findByName, List.findIdx?_eq_some_iff_getElem]
    refine ⟨by simpa [size] using hsize, (hname _).mpr hk, fun j hjk hj => ?_⟩
    rw [hname] at hj
    by_cases hn : n = ""
    · subst hn
      have htop : k = top := by
        by_contra hne
        obtain ⟨m, hm, hproper⟩ := exists_name hnames hsize hne
        exact hproper (Option.some.inj (hm.symm.trans hk))
      exact absurd hjk (by rw [htop]; exact Nat.not_lt_zero j)
    · have heq := eq_of_properName hnd (Attributes.properName_eq_some_iff.mpr ⟨hj, hn⟩)
        (Attributes.properName_eq_some_iff.mpr ⟨hk, hn⟩)
      omega

end

/-! ## The table, entry by entry

When layers are named, the table is filled with one entry for each group under different keys, so it
is a rearrangement of these entries. -/

/-- The entry of a group. -/
def route (t : Arena) (group : Nat) : String × List String :=
  ((t.name group).getD "", t.leafNames group)

section

variable {l : Layer} (h : (ofLayer l).Named)

include h

theorem Named.eq_of_name {j k : Nat} {n : String} (hj : (ofLayer l).name j = some n)
    (hk : (ofLayer l).name k = some n) : j = k :=
  Option.some.inj ((h.found j n hj).symm.trans (h.found k n hk))

/-- The entry of a group has everything that it should have. -/
theorem Named.isRoute {g : Nat} (hg : g ∈ (ofLayer l).groups) :
    (ofLayer l).IsRoute g ((ofLayer l).route g) where
  name := by
    obtain ⟨n, hn, -⟩ := h.named g (mem_groups_iff.mp hg).1 (ne_top_of_mem_groups hg)
    rw [route, hn]
    rfl
  leaves := by
    have hsome : ∀ o ∈ ((ofLayer l).dataChildren g).map (ofLayer l).name, o.isSome = true := by
      rw [List.forall_mem_map]
      intro c hc
      have hparent := ((mem_dataChildren_iff (mem_groups_iff.mp hg).1).mp hc).1
      obtain ⟨-, hc, hne⟩ := bounds_of_parent hparent
      obtain ⟨n, hn, -⟩ := h.named c hc hne
      rw [hn]
      rfl
    have hleaves : (ofLayer l).leafNames g
        = ((ofLayer l).dataChildren g).filterMap (ofLayer l).name := rfl
    rw [route, hleaves, List.map_filterMap_some_eq_filter_map_isSome, List.filter_eq_self.mpr hsome]

/-- The table is filled with the entries of the groups. -/
theorem Named.routing_eq : (ofLayer l).routing
    = ((ofLayer l).groups.map (ofLayer l).route).foldl setEntry [] := by
  have hgroups : (ofLayer l).all.filter (fun k => (ofLayer l).role k == .group)
      = (ofLayer l).groups := by
    rw [groups, all_eq_range, size_ofLayer]
  rw [routing, hgroups, List.foldl_map]
  refine List.foldl_ext _ _ _ fun table g hg => ?_
  have hname := (h.isRoute hg).name
  rw [hname]
  rfl

/-- The keys are the names of the groups. -/
theorem Named.nodup_keys : (((ofLayer l).groups.map (ofLayer l).route).map Prod.fst).Nodup := by
  have hgroups : (ofLayer l).groups.Nodup := List.nodup_range.filter _
  rw [List.map_map]
  refine hgroups.map_on fun g hg g' hg' heq => ?_
  have hname := (h.isRoute hg).name
  have hname' := (h.isRoute hg').name
  exact h.eq_of_name hname (hname'.trans (congrArg some heq.symm))

/-- **No entry is overwritten.** -/
theorem Named.perm_routing :
    (ofLayer l).routing.Perm ((ofLayer l).groups.map (ofLayer l).route) := by
  have hfresh : ∀ e ∈ (ofLayer l).groups.map (ofLayer l).route,
      e.1 ∉ ([] : List (String × List String)).map Prod.fst := fun _ _ => List.not_mem_nil
  have hperm := perm_foldl_setEntry h.nodup_keys hfresh
  rwa [← h.routing_eq, List.append_nil] at hperm

/-- All names in the table are those of the data layers below groups, each of them once. -/
theorem Named.perm_leaves : ((ofLayer l).routing.flatMap Prod.snd).Perm
    (((ofLayer l).groups.flatMap (ofLayer l).dataChildren).filterMap (ofLayer l).name) := by
  have hperm := h.perm_routing.flatMap_right Prod.snd
  rw [List.flatMap_map] at hperm
  rw [List.filterMap_flatMap]
  exact hperm

/-- **Requests can be routed** when layers are named. -/
theorem Named.routed : (ofLayer l).Routed (ofLayer l).routing where
  entries := by
    refine ⟨_, h.perm_routing, ?_⟩
    rw [List.forall₂_map_right_iff, List.forall₂_same]
    exact fun g hg => h.isRoute hg
  keys := by
    rw [h.routing_eq]
    exact pairwise_keys_foldl_setEntry .nil
  notTop n hn hmem := by
    rw [(h.perm_routing.map Prod.fst).mem_iff, List.map_map, List.mem_map] at hmem
    obtain ⟨g, hg, rfl⟩ := hmem
    exact ne_top_of_mem_groups hg (h.eq_of_name (h.isRoute hg).name hn)
  once k p hk hp hgroup := by
    obtain ⟨hpsize, hksize, hne⟩ := bounds_of_parent hp
    obtain ⟨n, hn, -⟩ := h.named k hksize hne
    refine ⟨n, hn, ?_⟩
    have hmem : k ∈ (ofLayer l).groups.flatMap (ofLayer l).dataChildren :=
      List.mem_flatMap.mpr ⟨p, mem_groups_iff.mpr ⟨hpsize, hgroup⟩,
        (mem_dataChildren_iff hpsize).mpr ⟨hp, hk⟩⟩
    have hnd : (((ofLayer l).groups.flatMap (ofLayer l).dataChildren).filterMap
        (ofLayer l).name).Nodup :=
      nodup_dataChildren.filterMap fun j j' m hj hj' => h.eq_of_name hj hj'
    rw [h.perm_leaves.count_eq]
    exact List.count_eq_one_of_mem hnd (List.mem_filterMap.mpr ⟨k, hmem, hn⟩)
  only n hn := by
    obtain ⟨k, hk, hname⟩ := List.mem_filterMap.mp (h.perm_leaves.mem_iff.mp hn)
    obtain ⟨p, hp, hkp⟩ := List.mem_flatMap.mp hk
    obtain ⟨hpsize, hgroup⟩ := mem_groups_iff.mp hp
    obtain ⟨hparent, hdata⟩ := (mem_dataChildren_iff hpsize).mp hkp
    exact ⟨k, p, hname, hdata, hparent, hgroup⟩

end

end Arena

/-! ## After acceptance -/

namespace Evaluation

variable {layers : LayerInput} {top : Option Attributes} {s : Settings} {e : Evaluation}

/-- The hierarchy of a tree without errors names its layers. -/
theorem named_of_accepted (l : Layer) (h : (ofLayer s l).isAccepted = true) :
    (Arena.ofLayer l).Named := by
  have herrors : ((Hierarchy.ofLayer l s.primary).check s).errors = [] := List.isEmpty_iff.mp h
  rw [Hierarchy.check, Report.errors_ofFindings_iff, Hierarchy.findings, harmless_append,
    Hierarchy.harmless_walkFindings] at herrors
  obtain ⟨⟨hlayers, hnd, -⟩, -⟩ := herrors
  refine Arena.named_of_properNames (fun k hk hrole => (hlayers k ?_).1 hrole) hnd
  rw [show (Hierarchy.ofLayer l s.primary).all = _ from Arena.all_eq_range l, List.mem_range,
    ← Arena.size_ofLayer]
  exact hk

/-- **After acceptance, layers are found by name and requests for groups can be routed.** -/
theorem routed_of_accepted (h : layers.evaluate top s = .ok e) (ha : e.isAccepted = true) :
    e.hierarchy.Named ∧ e.hierarchy.Routed e.hierarchy.routing := by
  rw [LayerInput.evaluate] at h
  cases hnest : layers.nest top with
  | error err =>
    rw [hnest] at h
    cases h
  | ok l =>
    rw [hnest] at h
    cases h
    have hnamed := named_of_accepted l ha
    exact ⟨hnamed, hnamed.routed⟩

/-- The sample with nested groups is accepted, and routed. -/
theorem routed_routing : (ofLayer {} Samples.routing).isAccepted = true ∧
    (Arena.ofLayer Samples.routing).Named ∧
      (Arena.ofLayer Samples.routing).Routed (Arena.ofLayer Samples.routing).routing :=
  have h : (ofLayer {} Samples.routing).isAccepted = true := by decide +kernel
  have hok : (LayerInput.nested Samples.routing).evaluate none {}
      = .ok (ofLayer {} Samples.routing) := rfl
  ⟨h, routed_of_accepted hok h⟩

end Evaluation

end MapLayers
