import Mathlib.Data.List.Basic
import Mathlib.Data.List.Induction
import MapLayers.Hierarchy.Basic
import MapLayers.Proofs.Layout.Links
import MapLayers.Proofs.Views.Tables

/-!
# What boxes come to, place by place

The boxes of a hierarchy are worked out in one pass, each table from the tables before it.  Since no
table changes later and parents come first, the pass can be forgotten: `Hierarchy.effectiveBox_eq`
gives the effective box of a place, in any coordinate system, in terms of what its layer declares
and what its parent passes on.  A system that is not referenced needs no case of its own, because
nobody declares a box for it.

There are three sources of a box, and they differ in what becomes of it further down.  A box that a
layer declares is passed on, and stays as good as declared; so is one that the layer has from above.
A standard extent is used where it is needed and is not passed on.  A box of the first two kinds is
*explicit*, and `Hierarchy.explicit_passedOn_iff` says that exactly the explicit boxes are passed
on.

So having an explicit box is inherited too (`Hierarchy.hasExplicitBox_iff`), and every layer has one
exactly when the top layer declares one (`Hierarchy.hasExplicitBox_all_iff`).  This is what the rule
about boxes in the primary system comes to.
-/

set_option autoImplicit false

namespace MapLayers

/-! ## The pass over the nodes

The tables are made one after the other and never changed, so the table of a node can be read off
the pass as it was when the node was met (`getD_tablesOf`).  What a node reads in it, the table of
its parent, is complete by then (`inheritedBox_append`). -/

section Tables

variable (primary : Crs) (referenced : List Crs)

/-- The tables of some nodes, each worked out from those before it. -/
def tablesOf (ns : List Node) : Array BoxTable :=
  ns.foldl (fun boxes n => boxes.push (n.boxTable primary referenced boxes)) #[]

theorem tablesOf_concat (ns : List Node) (n : Node) :
    tablesOf primary referenced (ns ++ [n])
      = (tablesOf primary referenced ns).push
          (n.boxTable primary referenced (tablesOf primary referenced ns)) := by
  rw [tablesOf, List.foldl_append]
  rfl

@[simp] theorem size_tablesOf (ns : List Node) :
    (tablesOf primary referenced ns).size = ns.length := by
  induction ns using List.reverseRecOn with
  | nil => rfl
  | append_singleton ns n ih => rw [tablesOf_concat, Array.size_push, ih, List.length_append]; rfl

/-- No table changes when further nodes follow. -/
theorem getD_tablesOf_append {ns : List Node} {k : Nat} (h : k < ns.length) (ms : List Node) :
    (tablesOf primary referenced (ns ++ ms)).getD k []
      = (tablesOf primary referenced ns).getD k [] := by
  induction ms using List.reverseRecOn with
  | nil => rw [List.append_nil]
  | append_singleton ms m ih =>
    have hk : k < (tablesOf primary referenced (ns ++ ms)).size := by
      rw [size_tablesOf, List.length_append]
      omega
    rw [← ih, ← List.append_assoc, tablesOf_concat, Array.getD_eq_getD_getElem?,
      Array.getD_eq_getD_getElem?, Array.getElem?_push_lt hk, Array.getElem?_eq_getElem hk]

theorem getD_tablesOf (before : List Node) (n : Node) (after : List Node) :
    (tablesOf primary referenced (before ++ n :: after)).getD before.length []
      = n.boxTable primary referenced (tablesOf primary referenced before) := by
  have hlt : before.length < (before ++ [n]).length := by simp
  rw [List.append_cons, getD_tablesOf_append primary referenced hlt, tablesOf_concat,
    Array.getD_eq_getD_getElem?, ← size_tablesOf primary referenced before,
    Array.getElem?_push_size]
  rfl

/-- What a layer inherits is settled once its parent has its table. -/
theorem inheritedBox_append {before : List Node} {parent : Option Nat}
    (h : ∀ p, parent = some p → p < before.length) (after : List Node) (c : Crs) :
    inheritedBox (tablesOf primary referenced (before ++ after)) parent c
      = inheritedBox (tablesOf primary referenced before) parent c := by
  cases parent with
  | none => rfl
  | some p => rw [inheritedBox, inheritedBox, getD_tablesOf_append primary referenced (h p rfl)]

end Tables

/-! ## Referenced systems -/

theorem mem_foldl_insert {α : Type} (f : α → Crs) (xs : List α) (cs : List Crs) (c : Crs) :
    c ∈ xs.foldl (fun cs x => Crs.insert (f x) cs) cs ↔ c ∈ cs ∨ ∃ x ∈ xs, f x = c := by
  induction xs generalizing cs with
  | nil => simp
  | cons x xs ih =>
    rw [List.foldl_cons, ih, Crs.mem_insert, List.exists_mem_cons_iff]
    refine ⟨?_, ?_⟩
    · rintro ((h | h) | h)
      · exact Or.inr (Or.inl h.symm)
      · exact Or.inl h
      · exact Or.inr (Or.inr h)
    · rintro (h | h | h)
      · exact Or.inl (Or.inr h)
      · exact Or.inl (Or.inl h.symm)
      · exact Or.inr h

/-- The referenced systems are the primary one and those that some node declares a box for. -/
theorem Arena.mem_referenced_iff {t : Arena} {primary c : Crs} :
    c ∈ t.referenced primary ↔
      c = primary ∨ ∃ n ∈ t.nodes.toList, ∃ b ∈ n.attributes.boxes, b.crs = c := by
  have h : ∀ (ns : List Node) (cs : List Crs),
      c ∈ ns.foldl (fun cs n => n.attributes.boxes.foldl (fun cs b => Crs.insert b.crs cs) cs) cs ↔
        c ∈ cs ∨ ∃ n ∈ ns, ∃ b ∈ n.attributes.boxes, b.crs = c := by
    intro ns
    induction ns with
    | nil => simp
    | cons n ns ih =>
      intro cs
      rw [List.foldl_cons, ih, mem_foldl_insert, List.exists_mem_cons_iff, or_assoc]
  rw [referenced, h, List.mem_singleton]

/-! ## Boxes of a place

Here the tables disappear.  A system that is not referenced is in no table, and there the equation
holds because both sides are nothing: nobody declares a box for it, so nothing is inherited, and it
is not the primary system, so there is no standard extent either. -/

namespace Attributes

theorem box?_eq_none_iff {a : Attributes} {c : Crs} :
    a.box? c = none ↔ ∀ b ∈ a.boxes, b.crs ≠ c := by
  rw [box?, List.find?_eq_none]
  exact forall₂_congr fun b _ => by simp

theorem declaredBox_eq_none_iff {a : Attributes} {c : Crs} :
    a.declaredBox c = none ↔ ∀ b ∈ a.boxes, b.crs ≠ c := by
  rw [declaredBox, Option.map_eq_none_iff, box?_eq_none_iff]

end Attributes

namespace Hierarchy

variable {l : Layer} {primary : Crs} {q : Place}

theorem mem_referenced_iff {c : Crs} : c ∈ (ofLayer l primary).referenced ↔
    c = primary ∨ ∃ q ∈ (Place.top l).all, ∃ b ∈ q.layer.attributes.boxes, b.crs = c := by
  have h : c ∈ (Arena.ofLayer l).referenced primary ↔ _ := Arena.mem_referenced_iff
  rw [Arena.nodes_ofLayer] at h
  refine h.trans (or_congr_right ⟨?_, ?_⟩)
  · rintro ⟨n, hn, hb⟩
    obtain ⟨q, hq, rfl⟩ := List.mem_map.mp hn
    exact ⟨q, hq, hb⟩
  · rintro ⟨q, hq, hb⟩
    exact ⟨q.node, List.mem_map_of_mem hq, hb⟩

/-- The tables of a hierarchy are those of its nodes. -/
theorem boxes_eq : (ofLayer l primary).boxes
    = tablesOf primary (ofLayer l primary).referenced ((Place.top l).all.map Place.node) := by
  rw [← Arena.nodes_ofLayer]
  show (Arena.ofLayer l).boxes primary = _
  rw [Arena.boxes, Arena.boxesIn, tablesOf, Array.foldl_toList]
  rfl

/-- The table of a place, from the final tables. -/
theorem boxTable_eq (h : q ∈ (Place.top l).all) :
    (ofLayer l primary).boxTable q.position
      = q.node.boxTable primary (ofLayer l primary).referenced (ofLayer l primary).boxes := by
  obtain ⟨before, after, hsplit⟩ := List.append_of_mem h
  have hlen : (before.map Place.node).length = q.position := by
    have hq : (Place.top l).all[before.length]? = some q := by
      rw [hsplit, List.getElem?_append_right (Nat.le_refl _), Nat.sub_self]
      rfl
    have hpos := Place.position_getElem hq
    rw [List.length_map, hpos]
    exact (Nat.zero_add _).symm
  have hparent : ∀ p, q.node.parent = some p → p < (before.map Place.node).length := by
    intro p hp
    rw [hlen]
    rcases Place.eq_or_mem_children h with rfl | ⟨r, -, hr⟩
    · exact absurd hp (by simp [Place.top, Place.node])
    · have hr' : some r.position = some p := (Place.parent_of_mem_children hr).symm.trans hp
      exact Option.some.inj hr' ▸ Place.position_lt_of_mem_children hr
  have hboxes : (ofLayer l primary).boxes = _ := boxes_eq
  rw [hsplit, List.map_append, List.map_cons] at hboxes
  have htable := getD_tablesOf primary (ofLayer l primary).referenced (before.map Place.node) q.node
    (after.map Place.node)
  rw [hlen, ← hboxes] at htable
  rw [boxTable, htable, Node.boxTable, Node.boxTable]
  congr 1
  funext c
  rw [Node.effectiveBox, Node.effectiveBox, hboxes, inheritedBox_append _ _ hparent]

/-- What the parent of a place passes on. -/
theorem inheritedBox_eq (k : Nat) (c : Crs) : (ofLayer l primary).inheritedBox k c
    = ((ofLayer l primary).parent k).bind fun p =>
        ((ofLayer l primary).effectiveBox p c).bind (passedOn p) := by
  rw [inheritedBox]
  cases (ofLayer l primary).parent k <;> rfl

theorem effectiveBox_of_not_mem (h : q ∈ (Place.top l).all) {c : Crs}
    (hc : c ∉ (ofLayer l primary).referenced) :
    (ofLayer l primary).effectiveBox q.position c = none := by
  rw [effectiveBox, boxTable_eq h, Node.boxTable, lookup_filterMap, if_neg hc]

theorem inheritedBox_top : (ofLayer l primary).inheritedBox 0 = fun _ => none := by
  funext c
  have htop : (ofLayer l primary).parent 0 = none :=
    Arena.parent_eq (Place.mem_all_self (Place.top l))
  rw [inheritedBox_eq, htop]
  rfl

theorem inheritedBox_child {c : Place} (h : q ∈ (Place.top l).all) (hc : c ∈ q.children) (d : Crs) :
    (ofLayer l primary).inheritedBox c.position d
      = ((ofLayer l primary).effectiveBox q.position d).bind (passedOn q.position) := by
  have hparent : (ofLayer l primary).parent c.position = some q.position :=
    (Arena.parent_eq (Place.mem_all_of_mem_children h hc)).trans (Place.parent_of_mem_children hc)
  rw [inheritedBox_eq, hparent]
  rfl

/-- **The effective box of a place**: what its layer declares, else what its parent passes on, else
the standard extent of the primary system. -/
theorem effectiveBox_eq (h : q ∈ (Place.top l).all) (c : Crs) :
    (ofLayer l primary).effectiveBox q.position c
      = (q.layer.attributes.declaredBox c).or
          (((ofLayer l primary).inheritedBox q.position c).or (standardBox primary c)) := by
  by_cases hc : c ∈ (ofLayer l primary).referenced
  · rw [effectiveBox, boxTable_eq h, Node.boxTable, lookup_filterMap, if_pos hc, Node.effectiveBox,
      inheritedBox]
    have hparent : (ofLayer l primary).parent q.position = q.node.parent := Arena.parent_eq h
    rw [hparent]
    rfl
  · rw [effectiveBox_of_not_mem h hc]
    rw [mem_referenced_iff, not_or] at hc
    have hdeclared : q.layer.attributes.declaredBox c = none :=
      Attributes.declaredBox_eq_none_iff.mpr fun b hb heq => hc.2 ⟨q, h, b, hb, heq⟩
    have hinherited : (ofLayer l primary).inheritedBox q.position c = none := by
      rcases Place.eq_or_mem_children h with rfl | ⟨r, hr, hqr⟩
      · exact congrFun inheritedBox_top c
      · rw [inheritedBox_child hr hqr,
          effectiveBox_of_not_mem hr (by rwa [mem_referenced_iff, not_or])]
        rfl
    rw [hdeclared, hinherited, standardBox, if_neg hc.1]
    rfl

/-! ## Explicit boxes -/

/-- The layer at a position has a box that it, or an ancestor, declares. -/
def HasExplicitBox (h : Hierarchy) (k : Nat) (c : Crs) : Prop :=
  (h.effectiveBox k c).map EffectiveBox.isExplicit = some true

theorem not_explicit_standardBox (primary c : Crs) :
    (standardBox primary c).map EffectiveBox.isExplicit ≠ some true := by
  rw [standardBox]
  split
  · cases standardExtent c <;> simp [EffectiveBox.isExplicit]
  · simp

/-- Exactly the explicit boxes are passed on, and they stay explicit. -/
theorem explicit_passedOn_iff (p : Nat) (o : Option EffectiveBox) :
    (o.bind (passedOn p)).map EffectiveBox.isExplicit = some true ↔
      o.map EffectiveBox.isExplicit = some true := by
  rcases o with _ | ⟨rect, _ | _ | _⟩ <;> simp [passedOn, EffectiveBox.isExplicit]

/-- A box is explicit when it is declared or explicit by inheritance. -/
theorem hasExplicitBox_iff (h : q ∈ (Place.top l).all) (c : Crs) :
    (ofLayer l primary).HasExplicitBox q.position c ↔
      (∃ b ∈ q.layer.attributes.boxes, b.crs = c) ∨
        ((ofLayer l primary).inheritedBox q.position c).map EffectiveBox.isExplicit
          = some true := by
  have hdeclares : (∃ b ∈ q.layer.attributes.boxes, b.crs = c) ↔
      q.layer.attributes.declaredBox c ≠ none := by
    rw [Ne, Attributes.declaredBox_eq_none_iff]
    simp
  rw [hdeclares, HasExplicitBox, effectiveBox_eq h]
  cases hd : q.layer.attributes.declaredBox c with
  | none =>
    have hstandard := not_explicit_standardBox primary c
    cases hi : (ofLayer l primary).inheritedBox q.position c with
    | none => simpa using hstandard
    | some e => simp
  | some e =>
    have he : e.isExplicit = true := by
      rw [Attributes.declaredBox, Option.map_eq_some_iff] at hd
      obtain ⟨b, -, rfl⟩ := hd
      rfl
    simp [he]

theorem hasExplicitBox_child {c : Place} (h : q ∈ (Place.top l).all) (hc : c ∈ q.children)
    (d : Crs) : (ofLayer l primary).HasExplicitBox c.position d ↔
      (∃ b ∈ c.layer.attributes.boxes, b.crs = d) ∨
        (ofLayer l primary).HasExplicitBox q.position d := by
  rw [hasExplicitBox_iff (Place.mem_all_of_mem_children h hc), inheritedBox_child h hc,
    explicit_passedOn_iff]
  exact Iff.rfl

theorem hasExplicitBox_top (c : Crs) : (ofLayer l primary).HasExplicitBox 0 c ↔
    ∃ b ∈ l.attributes.boxes, b.crs = c := by
  have h : (ofLayer l primary).HasExplicitBox 0 c ↔ _ :=
    hasExplicitBox_iff (Place.mem_all_self (Place.top l)) c
  rw [show (Place.top l).position = 0 from rfl, inheritedBox_top] at h
  simpa [Place.top] using h

/-- **Every layer has an explicit box in a system exactly when the top layer declares one.** -/
theorem hasExplicitBox_all_iff (c : Crs) :
    (∀ q ∈ (Place.top l).all, (ofLayer l primary).HasExplicitBox q.position c) ↔
      ∃ b ∈ l.attributes.boxes, b.crs = c := by
  have htop : (ofLayer l primary).HasExplicitBox 0 c ↔ _ := hasExplicitBox_top c
  rw [← htop]
  refine ⟨fun h => h (Place.top l) (Place.mem_all_self _), fun h => ?_⟩
  refine Place.all_induction (Place.top l) h fun r hr hexplicit d hd => ?_
  exact (hasExplicitBox_child hr hd c).mpr (Or.inr hexplicit)

end Hierarchy

end MapLayers
