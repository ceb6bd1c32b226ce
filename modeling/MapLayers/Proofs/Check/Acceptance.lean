import MapLayers.Evaluation
import MapLayers.Proofs.Boxes.Effective
import MapLayers.Proofs.Check.Harmless
import MapLayers.Proofs.Check.WellFormed
import MapLayers.Proofs.Views.Shared

/-!
# Acceptance is well-formedness

The check of a hierarchy walks an arena, carries a table of names, and asks for roles, effective
boxes and styles shared along edges.  Still, whether it finds errors depends on the tree alone: a
tree is accepted exactly when it is well formed (`Evaluation.errors_eq_nil_iff_wellFormed`).

Two of the rules ask for less than they seem to.  Every layer needs an explicit box in the primary
system, but boxes are inherited, so it is enough that the top layer declares one.  And the rule that
some layer is visible never fails on its own, since the top layer has to be visible anyway.

The argument has three steps, from the walk to the tree.

* A walk makes no errors when nothing is wrong with any layer by itself, and the names that it meets
  differ from each other and from those met before (`Hierarchy.harmless_walkFindings`).
* Nothing is wrong with a place exactly when its layer is sound and has an explicit box in the
  primary system (`Hierarchy.sound_iff`).  A place knows its parent, and so the one other layer that
  soundness looks at.
* What holds at all places holds all over the tree, and the names of all places are those of the
  tree (`Hierarchy.quiet_all_iff`).
-/

set_option autoImplicit false

namespace MapLayers

/-! ## Names along the walk

A walk makes an error about a name when the table has an entry for it.  Going through the layers one
by one, this is so for none of them exactly when the names that are met differ from each other and
from those in the table at the start.  Everything else that is asked of a layer can be asked at once
(`Hierarchy.QuietAt`). -/

theorem lookup_meet_eq_none_iff {names : Holders} {k : Nat} {a : Attributes} {n : String} :
    (names.meet k a).lookup n = none ↔ names.lookup n = none ∧ a.properName ≠ some n := by
  rw [Holders.lookup_meet, Option.or_eq_none_iff, ite_eq_right_iff]
  simp

namespace Hierarchy

/-- Apart from its name, nothing is wrong with the layer at a position. -/
structure QuietAt (h : Hierarchy) (s : Settings) (shared : List (Nat × List String)) (k : Nat) :
    Prop where
  visibility : Harmless (checkVisibility (h.attributes k) (h.role k))
  styles : Harmless (checkStyles s (h.attributes k) (h.role k))
  source : Harmless (checkSource s (h.attributes k) (h.role k))
  scales : Harmless (checkScales (h.attributes k))
  boxes : Harmless (checkDeclaredBoxes (h.inheritedBox k) [] (h.attributes k).boxes)
  primary : Harmless (checkPrimaryBox s (h.effectiveBox k s.primary))
  shared : Harmless (checkSharedStyles (h.attributes k) (h.parent k) ((shared.lookup k).getD []))

variable {h : Hierarchy} {s : Settings} {shared : List (Nat × List String)}

theorem harmless_layerFindings {names : Holders} {k : Nat} :
    Harmless (h.layerFindings s shared names k) ↔
      Harmless (checkName names (h.attributes k) (h.role k)) ∧ h.QuietAt s shared k := by
  rw [layerFindings, harmless_located]
  simp only [harmless_append]
  refine ⟨?_, ?_⟩
  · rintro ⟨⟨⟨⟨⟨⟨⟨hname, h₁⟩, h₂⟩, h₃⟩, h₄⟩, h₅⟩, h₆⟩, h₇⟩
    exact ⟨hname, h₁, h₂, h₃, h₄, h₅, h₆, h₇⟩
  · rintro ⟨hname, h₁, h₂, h₃, h₄, h₅, h₆, h₇⟩
    exact ⟨⟨⟨⟨⟨⟨⟨hname, h₁⟩, h₂⟩, h₃⟩, h₄⟩, h₅⟩, h₆⟩, h₇⟩

/-- **A walk makes no errors** when nothing is wrong with any layer by itself, and the names that it
meets differ from each other and from those met before. -/
theorem harmless_walkFindings : ∀ (ks : List Nat) (names : Holders),
    Harmless (h.walkFindings s shared names ks) ↔
      (∀ k ∈ ks, (h.role k ≠ .top → (h.attributes k).properName ≠ none) ∧ h.QuietAt s shared k) ∧
        (ks.filterMap fun k => (h.attributes k).properName).Nodup ∧
          ∀ n ∈ ks.filterMap fun k => (h.attributes k).properName, names.lookup n = none
  | [], names => by simp [walkFindings]
  | k :: ks, names => by
    have htail := harmless_walkFindings ks (names.meet k (h.attributes k))
    rw [walkFindings, harmless_append, harmless_layerFindings, harmless_checkName, htail,
      List.forall_mem_cons]
    simp only [lookup_meet_eq_none_iff]
    cases hname : (h.attributes k).properName with
    | none =>
      simp only [List.filterMap_cons, hname]
      refine ⟨?_, ?_⟩
      · rintro ⟨⟨⟨htop, -⟩, hk⟩, hks, hnd, hfresh⟩
        exact ⟨⟨⟨htop, hk⟩, hks⟩, hnd, fun n hn => (hfresh n hn).1⟩
      · rintro ⟨⟨⟨htop, hk⟩, hks⟩, hnd, hfresh⟩
        refine ⟨⟨⟨htop, fun n hn => absurd hn (by simp)⟩, hk⟩, hks, hnd, fun n hn => ?_⟩
        exact ⟨hfresh n hn, by simp⟩
    | some m =>
      simp only [List.filterMap_cons, hname, List.nodup_cons, List.forall_mem_cons]
      refine ⟨?_, ?_⟩
      · rintro ⟨⟨⟨htop, hm⟩, hk⟩, hks, hnd, hfresh⟩
        refine ⟨⟨⟨htop, hk⟩, hks⟩, ⟨fun hmem => (hfresh m hmem).2 rfl, hnd⟩, hm m rfl, ?_⟩
        exact fun n hn => (hfresh n hn).1
      · rintro ⟨⟨⟨htop, hk⟩, hks⟩, ⟨hmem, hnd⟩, hm, hfresh⟩
        refine ⟨⟨⟨htop, fun n hn => Option.some.inj hn ▸ hm⟩, hk⟩, hks, hnd, fun n hn => ?_⟩
        exact ⟨hfresh n hn, fun heq => hmem (Option.some.inj heq ▸ hn)⟩

end Hierarchy

/-! ## From places to the tree

A condition on a layer and its parent holds at every place of a tree exactly when it holds all over
the tree, and the names at the places are the names in the tree.  Then the conditions of
`Layer.Sound` are compared with what makes each check harmless, one by one. -/

section Trees

variable (P : Option Attributes → Layer → Prop) (attributesAt : Nat → Attributes)

mutual

theorem every_places : ∀ (l : Layer) (k : Nat) (p nx : Option Nat),
    (∀ r ∈ l.places k p nx, attributesAt r.position = r.layer.attributes) →
      ((∀ r ∈ l.places k p nx, P (r.parent.map attributesAt) r.layer) ↔
        l.Every P (p.map attributesAt))
  | .node a cs, k, p, nx, h => by
    rw [Layer.places, List.forall_mem_cons] at h
    have ha : attributesAt k = a := h.1
    rw [Layer.places, List.forall_mem_cons, Layer.Every, ← ha, everyAll_places cs k (k + 1) h.2]

theorem everyAll_places : ∀ (cs : List Layer) (p k : Nat),
    (∀ r ∈ Layer.placesAll p k cs, attributesAt r.position = r.layer.attributes) →
      ((∀ r ∈ Layer.placesAll p k cs, P (r.parent.map attributesAt) r.layer) ↔
        Layer.EveryAll P (attributesAt p) cs)
  | [], p, k, _ => by simp [Layer.placesAll, Layer.EveryAll]
  | c :: cs, p, k, h => by
    rw [Layer.placesAll, List.forall_mem_append] at h
    rw [Layer.placesAll, List.forall_mem_append, Layer.EveryAll, everyAll_places cs p _ h.2,
      every_places c k _ _ h.1]
    rfl

end

end Trees

namespace Attributes

variable {a : Attributes}

theorem isHidden_iff : a.isHidden = true ↔ a.visible = some false := by
  rw [isHidden, beq_iff_eq]

theorem isHidden_eq_false_iff : a.isHidden = false ↔ a.visible ≠ some false := by
  rw [← Bool.not_eq_true, isHidden_iff]

theorem isVisible_iff : a.isVisible = true ↔ a.visible ≠ some false := by
  rw [← isHidden_eq_false_iff, isHidden_eq_not_isVisible, Bool.not_eq_false']

theorem properName_eq_some_iff {n : String} : a.properName = some n ↔ a.name = some n ∧ n ≠ "" := by
  rw [properName, Option.filter_eq_some_iff]
  simp

theorem properName_ne_none_iff : a.properName ≠ none ↔ ∃ n, a.name = some n ∧ n ≠ "" := by
  rw [Option.ne_none_iff_exists']
  exact exists_congr fun n => properName_eq_some_iff

theorem toList_properName : a.properName.toList = a.name.toList.filter (· ≠ "") := by
  rw [properName]
  cases a.name with
  | none => rfl
  | some n => by_cases hn : n = "" <;> simp [Option.filter, hn]

end Attributes

namespace Place

mutual

theorem names_places : ∀ (l : Layer) (k : Nat) (p nx : Option Nat),
    ((l.places k p nx).filterMap fun q => q.layer.attributes.properName) = l.names
  | .node a cs, k, p, nx => by
    rw [Layer.places, Layer.names, ← Attributes.toList_properName, List.filterMap_cons,
      names_placesAll]
    simp only [Layer.attributes]
    cases a.properName <;> rfl

theorem names_placesAll : ∀ (cs : List Layer) (p k : Nat),
    ((Layer.placesAll p k cs).filterMap fun q => q.layer.attributes.properName) = Layer.namesAll cs
  | [], _, _ => rfl
  | c :: cs, p, k => by
    rw [Layer.placesAll, Layer.namesAll, List.filterMap_append, names_places, names_placesAll]

end

end Place

namespace Hierarchy

variable {l : Layer} {s : Settings} {primary : Crs} {q : Place}

/-- Nothing forbidden is shared with the parent. -/
theorem forbiddenShared_iff (hq : q ∈ (Place.top l).all) :
    (((ofLayer l primary).forbiddenShared s).lookup q.position).getD [] = [] ↔
      (s.comparesStyles = true → s.rewritesGroups = false →
        ∀ p, q.parent.map (Arena.ofLayer l).attributes = some p →
          ∀ st ∈ q.layer.attributes.styles, ∀ other ∈ p.styles, st.name ≠ other.name) := by
  rw [forbiddenShared, Settings.forbidsSharedStyles]
  by_cases hforbids : s.comparesStyles = true ∧ s.rewritesGroups = false
  · have htable : (if (s.comparesStyles && !s.rewritesGroups) = true then
        (ofLayer l primary).styleCollisions else []) = (Arena.ofLayer l).styleCollisions := by
      rw [hforbids.1, hforbids.2]
      rfl
    rw [htable]
    rcases Place.eq_or_mem_children hq with rfl | ⟨r, hr, hqr⟩
    · have htop := Arena.lookup_styleCollisions_top (l := l)
      simp [Place.top, htop]
    · have hnil := Arena.sharedStyles_eq_nil_iff hr hqr
      rw [Arena.lookup_styleCollisions_child hr hqr, Place.parent_of_mem_children hqr]
      simp only [hforbids, Option.map_some, Option.some.injEq, forall_const, forall_eq',
        Arena.attributes_eq hr, ← hnil]
      split <;> simp_all
  · have htable : (if (s.comparesStyles && !s.rewritesGroups) = true then
        (ofLayer l primary).styleCollisions else []) = [] := by
      rw [if_neg]
      simpa using hforbids
    rw [htable]
    exact ⟨fun _ hc hr => absurd ⟨hc, hr⟩ hforbids, fun _ => rfl⟩

/-- **Nothing is wrong with a place** exactly when its layer is sound and has an explicit box in the
primary system. -/
theorem sound_iff (hq : q ∈ (Place.top l).all) :
    (((ofLayer l s.primary).role q.position ≠ .top →
          ((ofLayer l s.primary).attributes q.position).properName ≠ none) ∧
        (ofLayer l s.primary).QuietAt s ((ofLayer l s.primary).forbiddenShared s) q.position) ↔
      q.layer.Sound s (q.parent.map (Arena.ofLayer l).attributes) ∧
        (s.primary = .standard ∨ (ofLayer l s.primary).HasExplicitBox q.position s.primary) := by
  have ha : (ofLayer l s.primary).attributes q.position = q.layer.attributes :=
    Arena.attributes_eq hq
  have hrole : (ofLayer l s.primary).role q.position = q.node.role := Arena.role_eq hq
  have htop : q.node.role = .top ↔ q.parent.map (Arena.ofLayer l).attributes = none := by
    rw [Place.role_eq_top_iff, Option.map_eq_none_iff]
  have hdata : q.node.role = .data ↔
      q.parent.map (Arena.ofLayer l).attributes ≠ none ∧ q.layer.children = [] := by
    rw [Place.role_eq_data_iff, Ne, Ne, Option.map_eq_none_iff]
  refine ⟨?_, ?_⟩
  · rintro ⟨hname, hv, hst, hsrc, hsc, hb, hp, hsh⟩
    rw [ha, hrole, Ne, htop, Attributes.properName_ne_none_iff] at hname
    rw [ha, hrole, harmless_checkVisibility, Attributes.isHidden_iff,
      Attributes.isHidden_eq_false_iff, hdata] at hv
    rw [ha, hrole, harmless_checkStyles, hdata] at hst
    rw [ha, hrole, harmless_checkSource, hdata] at hsrc
    rw [ha, harmless_checkScales] at hsc
    rw [ha, harmless_checkDeclaredBoxes] at hb
    rw [harmless_checkPrimaryBox] at hp
    rw [ha, harmless_checkSharedStyles, Attributes.isVisible_iff, forbiddenShared_iff hq] at hsh
    refine ⟨?_, hp⟩
    exact {
      named := hname
      shown := fun hgroup hh => hgroup.elim (hv.1 hh).1 (fun hne => hne (hv.1 hh).2)
      described := fun hs => (hv.2 hs).1
      stylesTitled := fun hs => (hv.2 hs).2
      styleNames := hst.1
      boxSystems := hb.1
      columnNames := fun src hsome => (hsrc.2 src hsome).2
      bound := hsrc.1
      plain := fun hk => ⟨hst.2.1 hk, fun src hsome => (hsrc.2 src hsome).1 hk⟩
      drawn := fun hk hd st hmem => by
        rw [hst.2.2 hk st hmem]
        exact and_iff_left hd
      undrawn := fun hk hd st hmem => by
        by_contra hne
        have hdynamic := ((hst.2.2 hk st hmem).mp hne).2
        rw [hd] at hdynamic
        exact absurd hdynamic (by simp)
      scales := hsc
      apart := fun hc hr hs => hsh hs hc hr }
  · rintro ⟨hsound, hp⟩
    refine ⟨?_, ?_, ?_, ?_, ?_, ?_, ?_, ?_⟩
    · rw [ha, hrole, Ne, htop, Attributes.properName_ne_none_iff]
      exact hsound.named
    · rw [ha, hrole, harmless_checkVisibility, Attributes.isHidden_iff,
        Attributes.isHidden_eq_false_iff, hdata]
      refine ⟨fun hh => ?_, fun hs => ⟨hsound.described hs, hsound.stylesTitled hs⟩⟩
      have hgroup := fun h => hsound.shown h hh
      rw [imp_false, not_or, Ne, not_not] at hgroup
      exact hgroup
    · rw [ha, hrole, harmless_checkStyles, hdata]
      refine ⟨hsound.styleNames, fun hk => (hsound.plain hk).1, fun hk st hmem => ?_⟩
      cases hd : s.staticDrawing with
      | false => simpa using hsound.drawn hk hd st hmem
      | true => simpa using hsound.undrawn hk hd st hmem
    · rw [ha, hrole, harmless_checkSource, hdata]
      exact ⟨hsound.bound, fun src hsome =>
        ⟨fun hk => (hsound.plain hk).2 src hsome, hsound.columnNames src hsome⟩⟩
    · rw [ha, harmless_checkScales]
      exact hsound.scales
    · rw [ha, harmless_checkDeclaredBoxes]
      exact ⟨hsound.boxSystems, fun b _ => by simp⟩
    · rw [harmless_checkPrimaryBox]
      exact hp
    · rw [ha, harmless_checkSharedStyles, Attributes.isVisible_iff, forbiddenShared_iff hq]
      exact fun hs hc hr => hsound.apart hc hr hs

/-! ## All layers together -/

theorem all_eq_positions : (ofLayer l primary).all = (Place.top l).all.map Place.position :=
  Arena.all_eq_positions l

theorem properNames_all :
    ((ofLayer l primary).all.filterMap fun k => ((ofLayer l primary).attributes k).properName)
      = l.names := by
  have hnames : ((Place.top l).all.filterMap fun q => q.layer.attributes.properName) = l.names :=
    Place.names_places l 0 none none
  rw [all_eq_positions, List.filterMap_map, ← hnames]
  refine List.filterMap_congr fun q hq => ?_
  exact congrArg Attributes.properName (Arena.attributes_eq hq)

theorem sound_all_iff :
    (∀ q ∈ (Place.top l).all, q.layer.Sound s (q.parent.map (Arena.ofLayer l).attributes)) ↔
      l.Every (Layer.Sound s) none :=
  every_places (fun p q => q.Sound s p) (Arena.ofLayer l).attributes l 0 none none
    fun _ hq => Arena.attributes_eq hq

/-- The rule about the hierarchy as a whole asks for nothing that the top layer does not. -/
theorem harmless_checkAnyVisible (h : l.Every (Layer.Sound s) none) :
    Harmless (ofLayer l primary).checkAnyVisible := by
  have htop := (sound_all_iff.mpr h (Place.top l) (Place.mem_all_self _)).shown (Or.inl rfl)
  have hmem : 0 ∈ (ofLayer l primary).all := by
    rw [all_eq_positions]
    exact List.mem_map_of_mem (Place.mem_all_self (Place.top l))
  have hattr : (ofLayer l primary).attributes 0 = l.attributes :=
    Arena.attributes_eq (Place.mem_all_self (Place.top l))
  have hvisible : ((ofLayer l primary).attributes 0).isVisible = true := by
    rw [hattr, Attributes.isVisible_iff]
    exact htop
  rw [checkAnyVisible, if_pos (List.any_eq_true.mpr ⟨0, hmem, hvisible⟩)]
  exact harmless_nil

/-- Since boxes are inherited, the top layer declares one for all. -/
theorem quiet_all_iff :
    (∀ q ∈ (Place.top l).all,
      ((ofLayer l s.primary).role q.position ≠ .top →
          ((ofLayer l s.primary).attributes q.position).properName ≠ none) ∧
        (ofLayer l s.primary).QuietAt s ((ofLayer l s.primary).forbiddenShared s) q.position) ↔
      l.Every (Layer.Sound s) none ∧
        (s.primary = .standard ∨ ∃ b ∈ l.attributes.boxes, b.crs = s.primary) := by
  have hbox : (∀ q ∈ (Place.top l).all,
      (ofLayer l s.primary).HasExplicitBox q.position s.primary) ↔ _ :=
    hasExplicitBox_all_iff s.primary
  rw [← sound_all_iff, ← hbox]
  refine (forall₂_congr fun q (hq : q ∈ (Place.top l).all) => sound_iff (s := s) hq).trans ?_
  by_cases hp : s.primary = .standard
  · simp [hp]
  · simp only [hp, false_or]
    exact forall₂_and

end Hierarchy

/-- **Acceptance is well-formedness.**  The report on a tree of layers has no errors exactly when
the tree is well formed. -/
theorem Evaluation.errors_eq_nil_iff_wellFormed (s : Settings) (l : Layer) :
    (Evaluation.ofLayer s l).report.errors = [] ↔ l.WellFormed s := by
  have hwalk : Harmless ((Hierarchy.ofLayer l s.primary).walkFindings s
      ((Hierarchy.ofLayer l s.primary).forbiddenShared s) .empty
      (Hierarchy.ofLayer l s.primary).all) ↔ l.WellFormed s := by
    rw [Hierarchy.harmless_walkFindings, Hierarchy.properNames_all, Hierarchy.all_eq_positions,
      List.forall_mem_map, Hierarchy.quiet_all_iff]
    refine ⟨?_, ?_⟩
    · rintro ⟨⟨hsound, hbox⟩, hnames, -⟩
      exact ⟨hsound, hnames, hbox⟩
    · rintro ⟨hsound, hnames, hbox⟩
      exact ⟨⟨hsound, hbox⟩, hnames, fun _ _ => rfl⟩
  rw [Evaluation.ofLayer, Hierarchy.check, Report.errors_ofFindings_iff, Hierarchy.findings,
    harmless_append, hwalk]
  exact and_iff_left_of_imp fun h => Hierarchy.harmless_checkAnyVisible h.sound

end MapLayers
