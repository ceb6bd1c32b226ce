import MapLayers.Proofs.Check.Local
import MapLayers.Proofs.Check.Order

/-!
# What hidden layers have in vain can be cleared

A hidden layer is warned about every field that is only published for visible ones.  The warnings
can be acted on: when these fields are cleared on all hidden layers, just the warnings about them
are gone, and everything else in the report stays as it is (`Hierarchy.clearsUnused_check`).  There
are as many such warnings about a layer as fields that are cleared, since no rule but this one reads
them.

Clearing changes attributes and no links (`Layer.clearUnused`), so the two hierarchies have the same
roles, children and walks.  What the other rules read is kept: names, styles by name, sources,
scales and boxes.  Check by check the findings are then the same, except for the one of visibility,
of which what has been cleared is gone (`checkVisibility_clearUnused`).

The two rules about visibility do not meet.  A finding about hidden layers says that something is
there in vain, and one about visible layers that something is missing, so leaving out the first does
not touch the second (`Hierarchy.exists_layer_of_visibility`).
-/

set_option autoImplicit false

namespace MapLayers

/-! ## Clearing what is published for visible layers only

`Attributes.clearUnused` clears six fields, two of them in every style, and does so for hidden
layers alone.  How many of them a layer has is `Attributes.descriptions`. -/

/-- The style without title and description. -/
def Style.undescribed (st : Style) : Style := { st with title := none, abstract := none }

/-- Whether a style has title and description. -/
def Style.descriptions (st : Style) : List Bool := [st.title.isSome, st.abstract.isSome]

namespace Attributes

/-- The attributes of a hidden layer, without what is only published for visible ones.  A layer that
is not hidden keeps everything. -/
def clearUnused (a : Attributes) : Attributes :=
  if a.isHidden then
    { a with
      title := none, abstract := none, keywords := none, metadata := none,
      styles := a.styles.map Style.undescribed }
  else a

/-- How many fields a layer has that are only published for visible ones. -/
def descriptions (a : Attributes) : Nat :=
  ([a.title.isSome, a.abstract.isSome, a.keywords.isSome, a.metadata.isSome]
    ++ a.styles.flatMap Style.descriptions).count true

end Attributes

/-- The tree, in which no hidden layer has anything that is only published for visible ones. -/
def Layer.clearUnused (l : Layer) : Layer := l.relabel (fun _ a => a.clearUnused) 0

/-- The second hierarchy is the first without what hidden layers have in vain, and of its report
just the warnings about that are gone. -/
structure Hierarchy.ClearsUnused (h h' : Hierarchy) (s : Settings) : Prop where
  /-- The links are the same. -/
  links : h.SameLinks h'.toArena
  /-- Hidden layers have nothing in vain, and nothing else is changed. -/
  attributes : ∀ k, h'.attributes k = (h.attributes k).clearUnused
  /-- The errors are the same. -/
  errors : (h'.check s).errors = (h.check s).errors
  /-- So are the warnings, but for those about what has been cleared. -/
  warnings : (h'.check s).warnings = (h.check s).warnings.filter (·.rule != .unusedWhenHidden)
  /-- There were as many of these about each layer as it now has fields less. -/
  count : ∀ k, ((h.check s).warnings.countP fun f =>
      f.rule == .unusedWhenHidden && f.layer == some k) + (h'.attributes k).descriptions
    = (h.attributes k).descriptions
  /-- No layer is said to have something in vain and to lack something at the same time. -/
  exclusive : ∀ f ∈ (h.check s).all, ∀ g ∈ (h.check s).all,
    f.rule = .unusedWhenHidden → g.rule = .requiredWhenVisible → f.layer ≠ g.layer

namespace Attributes

variable {a : Attributes}

/-! ### What is kept -/

theorem isHidden_clearUnused : a.clearUnused.isHidden = a.isHidden := by
  rw [clearUnused]
  split <;> rfl

theorem isVisible_clearUnused : a.clearUnused.isVisible = a.isVisible := by
  rw [clearUnused]
  split <;> rfl

theorem name_clearUnused : a.clearUnused.name = a.name := by
  rw [clearUnused]
  split <;> rfl

theorem boxes_clearUnused : a.clearUnused.boxes = a.boxes := by
  rw [clearUnused]
  split <;> rfl

theorem source_clearUnused : a.clearUnused.source = a.source := by
  rw [clearUnused]
  split <;> rfl

theorem scales_clearUnused :
    a.clearUnused.minScale = a.minScale ∧ a.clearUnused.maxScale = a.maxScale := by
  rw [clearUnused]
  split <;> exact ⟨rfl, rfl⟩

/-- Of the styles, only titles and descriptions are cleared. -/
theorem exists_styles_clearUnused : ∃ u : Style → Style,
    (∀ st, (u st).name = st.name ∧ (u st).visualization = st.visualization) ∧
      a.clearUnused.styles = a.styles.map u := by
  rw [clearUnused]
  split
  · exact ⟨Style.undescribed, fun _ => ⟨rfl, rfl⟩, rfl⟩
  · exact ⟨id, fun _ => ⟨rfl, rfl⟩, (List.map_id _).symm⟩

theorem styleNames_clearUnused :
    a.clearUnused.styles.map Style.name = a.styles.map Style.name := by
  obtain ⟨u, hu, hstyles⟩ := a.exists_styles_clearUnused
  rw [hstyles, List.map_map]
  exact List.map_congr_left fun st _ => (hu st).1

/-! ### What is gone -/

/-- Nothing is left to be cleared. -/
theorem descriptions_clearUnused :
    a.clearUnused.descriptions = if a.isHidden then 0 else a.descriptions := by
  rw [clearUnused]
  split
  · rw [descriptions, List.count_eq_zero, List.mem_append, List.flatMap_map, List.mem_flatMap]
    rintro (h | ⟨st, -, hst⟩)
    · exact absurd h (by decide : true ∉ [false, false, false, false])
    · exact absurd hst (by decide : true ∉ [false, false])
  · rfl

end Attributes

/-! ## The checks of a layer

Each check is compared with itself on the cleared attributes.  All but one read nothing that is
cleared.  Of the one that does, the findings are split into those about fields that are there in
vain and the others. -/

/-- A finding is about something other than what a hidden layer has in vain. -/
def Finding.stays (f : Finding) : Bool := f.rule != .unusedWhenHidden

/-- Findings of other groups all stay. -/
theorem OfGroup.filter_stays {g : RuleGroup} {fs : List Finding} (h : OfGroup g fs)
    (hg : g ≠ .visibility) : fs.filter Finding.stays = fs := by
  refine List.filter_eq_self.mpr fun f hf => bne_iff_ne.mpr fun hrule => hg ?_
  rw [← h f hf, hrule]
  rfl

section

variable {a : Attributes} {role : Role} {s : Settings} {f : Finding}

/-- Each field that is there in vain is reported once. -/
theorem length_unusedFindings : (unusedFindings a).length = a.descriptions := by
  have hstyles : (a.styles.flatMap unusedStyleFindings).length
      = (a.styles.flatMap Style.descriptions).count true := by
    rw [List.length_flatMap, List.count_flatMap]
    refine congrArg List.sum (List.map_congr_left fun st _ => ?_)
    rw [unusedStyleFindings, Function.comp_apply, Style.descriptions]
    cases st.title <;> cases st.abstract <;> rfl
  rw [unusedFindings, List.length_append, hstyles, Attributes.descriptions, List.count_append]
  congr 1
  cases a.title <;> cases a.abstract <;> cases a.keywords <;> cases a.metadata <;> rfl

/-- Findings about hidden layers say that something is there in vain, and those about visible ones
that something is missing. -/
theorem isHidden_of_mem_checkVisibility (hf : f ∈ checkVisibility a role) :
    (f.rule = .unusedWhenHidden → a.isHidden = true) ∧
      (f.rule = .requiredWhenVisible → a.isHidden = false) := by
  rw [checkVisibility] at hf
  split at hf
  · rename_i hhidden
    refine ⟨fun _ => hhidden, fun hrule => ?_⟩
    rw [checkHidden_eq, List.mem_append] at hf
    rcases hf with hf | hf
    · exact absurd ((aboutRule_hiddenFindings f hf).1.symm.trans hrule) (by decide)
    · exact absurd ((aboutRule_unusedFindings f hf).1.symm.trans hrule) (by decide)
  · rename_i hshown
    refine ⟨fun hrule => ?_, fun _ => (Bool.not_eq_true _).mp hshown⟩
    exact absurd ((aboutRule_checkShown f hf).1.symm.trans hrule) (by decide)

theorem filter_stays_eq_self {r : Rule} {fs : List Finding} (h : AboutRule r fs)
    (hr : r ≠ .unusedWhenHidden) : fs.filter Finding.stays = fs :=
  List.filter_eq_self.mpr fun f hf => bne_iff_ne.mpr ((h f hf).1 ▸ hr)

theorem filter_stays_unusedFindings : (unusedFindings a).filter Finding.stays = [] :=
  List.filter_eq_nil_iff.mpr fun f hf hstays =>
    bne_iff_ne.mp hstays (aboutRule_unusedFindings f hf).1

/-- **Of what is said about visibility, just what has been cleared is gone.** -/
theorem checkVisibility_clearUnused :
    checkVisibility a.clearUnused role = (checkVisibility a role).filter Finding.stays := by
  rw [checkVisibility, checkVisibility, Attributes.isHidden_clearUnused]
  split
  · rename_i hhidden
    have hnone : unusedFindings a.clearUnused = [] := by
      rw [← List.length_eq_zero_iff, length_unusedFindings, Attributes.descriptions_clearUnused,
        if_pos hhidden]
    rw [checkHidden_eq, checkHidden_eq, hnone, List.append_nil, List.filter_append,
      filter_stays_eq_self aboutRule_hiddenFindings (by decide), filter_stays_unusedFindings,
      List.append_nil]
  · rename_i hshown
    rw [Attributes.clearUnused, if_neg hshown,
      filter_stays_eq_self aboutRule_checkShown (by decide)]

theorem countP_checkVisibility :
    (checkVisibility a role).countP (·.rule == .unusedWhenHidden)
      = if a.isHidden then a.descriptions else 0 := by
  rw [checkVisibility]
  split
  · have hgroup : (hiddenFindings role).countP (·.rule == .unusedWhenHidden) = 0 :=
      List.countP_eq_zero.mpr fun f hf => by rw [(aboutRule_hiddenFindings f hf).1]; decide
    have hunused : (unusedFindings a).countP (·.rule == .unusedWhenHidden)
        = (unusedFindings a).length :=
      List.countP_eq_length.mpr fun f hf => by rw [(aboutRule_unusedFindings f hf).1]; decide
    rw [checkHidden_eq, List.countP_append, hgroup, hunused, Nat.zero_add, length_unusedFindings]
  · exact List.countP_eq_zero.mpr fun f hf => by rw [(aboutRule_checkShown f hf).1]; decide

theorem checkName_clearUnused {names : Holders} :
    checkName names a.clearUnused role = checkName names a role := by
  rw [checkName, checkName, Attributes.properName, Attributes.name_clearUnused]
  rfl

/-- Styles are compared by their names, and drawn as before. -/
theorem checkStyles_clearUnused :
    checkStyles s a.clearUnused role = checkStyles s a role := by
  obtain ⟨u, hu, hstyles⟩ := a.exists_styles_clearUnused
  have hrule (st : Style) : visualizationRule s.staticDrawing role (u st)
      = visualizationRule s.staticDrawing role st := by
    rw [visualizationRule, visualizationRule, (hu st).2]
  have hdrawing (st : Style) : ((visualizationRule s.staticDrawing role (u st)).map fun rule =>
        { Finding.of rule with style := some (u st).name, field := some .visualization })
      = (visualizationRule s.staticDrawing role st).map fun rule =>
        { Finding.of rule with style := some st.name, field := some .visualization } := by
    rw [hrule, (hu st).1]
  rw [checkStyles, checkStyles, Attributes.styleNames_clearUnused, hstyles, List.filterMap_map,
    List.isEmpty_map]
  simp only [Function.comp_def, hdrawing]

theorem checkSource_clearUnused :
    checkSource s a.clearUnused role = checkSource s a role := by
  rw [checkSource, checkSource, Attributes.source_clearUnused]

theorem checkScales_clearUnused : checkScales a.clearUnused = checkScales a := by
  rw [checkScales, checkScales, Attributes.scales_clearUnused.1, Attributes.scales_clearUnused.2]

theorem checkSharedStyles_clearUnused {parent : Option Nat} {shared : List String} :
    checkSharedStyles a.clearUnused parent shared = checkSharedStyles a parent shared := by
  rw [checkSharedStyles, checkSharedStyles, Attributes.isVisible_clearUnused]

end

namespace Hierarchy

variable {l : Layer} {primary : Crs} {s : Settings} {k : Nat} {f g : Finding}

/-! ## The cleared hierarchy

What a check of a layer is given apart from its attributes comes from other layers: names, boxes,
styles.  None of it is cleared, and links stay as they are. -/

theorem sameLinks_clearUnused :
    (ofLayer l primary).SameLinks (ofLayer l.clearUnused primary).toArena :=
  Arena.sameLinks_relabel _ l

theorem attributes_clearUnused (k : Nat) : (ofLayer l.clearUnused primary).attributes k
    = ((ofLayer l primary).attributes k).clearUnused := by
  by_cases hk : k < (ofLayer l primary).size
  · exact Arena.attributes_relabel _ l hk
  · have hge := Nat.le_of_not_lt hk
    rw [Arena.attributes_of_size_le hge, Arena.attributes_of_size_le]
    · rfl
    · rwa [sameLinks_clearUnused.size]

theorem all_clearUnused : (ofLayer l.clearUnused primary).all = (ofLayer l primary).all :=
  sameLinks_clearUnused.all_eq

theorem checkAnyVisible_clearUnused : (ofLayer l.clearUnused primary).checkAnyVisible
    = (ofLayer l primary).checkAnyVisible := by
  simp only [checkAnyVisible, all_clearUnused, attributes_clearUnused,
    Attributes.isVisible_clearUnused]

theorem holdersBefore_clearUnused (k : Nat) : (ofLayer l.clearUnused primary).holdersBefore k
    = (ofLayer l primary).holdersBefore k :=
  holdersBefore_congr fun j _ => by
    rw [Arena.name, Arena.name, attributes_clearUnused, Attributes.name_clearUnused]

theorem inheritedBox_clearUnused : (ofLayer l.clearUnused primary).inheritedBox k
    = (ofLayer l primary).inheritedBox k :=
  funext fun c => inheritedBox_congr sameLinks_clearUnused fun a _ => by
    rw [attributes_clearUnused, Attributes.box?, Attributes.box?, Attributes.boxes_clearUnused]

theorem effectiveBox_clearUnused (hk : k < (ofLayer l primary).size) (c : Crs) :
    (ofLayer l.clearUnused primary).effectiveBox k c = (ofLayer l primary).effectiveBox k c := by
  rw [effectiveBox_of_lt (by rwa [sameLinks_clearUnused.size]), effectiveBox_of_lt hk,
    inheritedBox_clearUnused, attributes_clearUnused, Attributes.declaredBox,
    Attributes.declaredBox, Attributes.box?, Attributes.box?, Attributes.boxes_clearUnused]

theorem getD_lookup_forbiddenShared_clearUnused (hk : k < (ofLayer l primary).size) :
    (((ofLayer l.clearUnused primary).forbiddenShared s).lookup k).getD []
      = (((ofLayer l primary).forbiddenShared s).lookup k).getD [] := by
  rw [getD_lookup_forbiddenShared (by rwa [sameLinks_clearUnused.size]),
    getD_lookup_forbiddenShared hk,
    sharedWithParent_congr sameLinks_clearUnused
      (by rw [attributes_clearUnused, Attributes.styleNames_clearUnused])
      fun p _ => by rw [attributes_clearUnused, Attributes.styleNames_clearUnused]]

/-! ## The findings

Group by group, layer by layer and then for the report, the findings that stay are those of the
cleared hierarchy.  Counting the ones that do not gives the number of fields. -/

/-- **Of the findings of a group, just those about what has been cleared are gone.** -/
theorem groupFindings_clearUnused (hk : k < (ofLayer l primary).size) (g : RuleGroup) :
    (ofLayer l.clearUnused primary).groupFindings s
        ((ofLayer l.clearUnused primary).forbiddenShared s)
        ((ofLayer l.clearUnused primary).holdersBefore k) k g
      = ((ofLayer l primary).groupFindings s ((ofLayer l primary).forbiddenShared s)
          ((ofLayer l primary).holdersBefore k) k g).filter Finding.stays := by
  have hrole : (ofLayer l.clearUnused primary).role k = (ofLayer l primary).role k :=
    congrFun sameLinks_clearUnused.role_eq k
  have hparent : (ofLayer l.clearUnused primary).parent k = (ofLayer l primary).parent k :=
    congrFun sameLinks_clearUnused.parent k
  by_cases hg : g = .visibility
  · subst hg
    rw [groupFindings, groupFindings, attributes_clearUnused, hrole, checkVisibility_clearUnused]
  · rw [(ofGroup_groupFindings g).filter_stays hg]
    cases g with
    | visibility => exact absurd rfl hg
    | names =>
      rw [groupFindings, groupFindings, attributes_clearUnused, hrole, holdersBefore_clearUnused,
        checkName_clearUnused]
    | styles =>
      rw [groupFindings, groupFindings, attributes_clearUnused, hrole, checkStyles_clearUnused]
    | source =>
      rw [groupFindings, groupFindings, attributes_clearUnused, hrole, checkSource_clearUnused]
    | scales => rw [groupFindings, groupFindings, attributes_clearUnused, checkScales_clearUnused]
    | boxes =>
      rw [groupFindings, groupFindings, attributes_clearUnused, Attributes.boxes_clearUnused,
        inheritedBox_clearUnused, effectiveBox_clearUnused hk]
    | sharedStyles =>
      rw [groupFindings, groupFindings, attributes_clearUnused, hparent,
        getD_lookup_forbiddenShared_clearUnused hk, checkSharedStyles_clearUnused]
    | hierarchy => rfl

/-- **Of all findings, just those about what has been cleared are gone.** -/
theorem findings_clearUnused (l : Layer) (primary : Crs) (s : Settings) :
    (ofLayer l.clearUnused primary).findings s
      = ((ofLayer l primary).findings s).filter Finding.stays := by
  have hwhole : (ofLayer l primary).checkAnyVisible.filter Finding.stays
      = (ofLayer l primary).checkAnyVisible := by
    refine List.filter_eq_self.mpr fun f hf => ?_
    rw [(mem_checkAnyVisible_iff.mp hf).1]
    rfl
  rw [findings_eq, findings_eq, all_clearUnused, checkAnyVisible_clearUnused, List.filter_append,
    hwhole, List.filter_flatMap]
  congr 1
  refine List.flatMap_congr fun k hk => ?_
  rw [layerFindings_eq_groups, layerFindings_eq_groups, List.filter_map, attributes_clearUnused,
    Attributes.name_clearUnused]
  refine congrArg _ (Eq.trans ?_ List.filter_flatMap.symm)
  exact List.flatMap_congr fun g _ => groupFindings_clearUnused (mem_all_iff.mp hk) g

/-- A finding about visibility is about a layer that is hidden, or is not, as its rule says. -/
theorem exists_layer_of_visibility (hf : f ∈ (ofLayer l primary).findings s)
    (hgroup : f.rule.group = .visibility) : ∃ k, f.layer = some k ∧
      (f.rule = .unusedWhenHidden → ((ofLayer l primary).attributes k).isHidden = true) ∧
        (f.rule = .requiredWhenVisible → ((ofLayer l primary).attributes k).isHidden = false) := by
  rcases exists_layerFindings_or hf with ⟨k, hk⟩ | hk
  · have hlayer := layer_of_mem_layerFindings hk
    obtain ⟨-, g, hg, rfl⟩ := (mem_findings_iff hlayer).mp hf
    rw [hgroup] at hg
    have hvisibility : g ∈ checkVisibility ((ofLayer l primary).attributes k)
        ((ofLayer l primary).role k) := hg
    have hrules := isHidden_of_mem_checkVisibility hvisibility
    exact ⟨k, hlayer, hrules⟩
  · rw [(mem_checkAnyVisible_iff.mp hk).1] at hgroup
    cases hgroup

/-- **There are as many warnings about a hidden layer as fields that it has in vain.** -/
theorem countP_warnings (l : Layer) (primary : Crs) (s : Settings) (k : Nat) :
    (((ofLayer l primary).check s).warnings.countP fun f =>
        f.rule == .unusedWhenHidden && f.layer == some k)
      = if ((ofLayer l primary).attributes k).isHidden then
          ((ofLayer l primary).attributes k).descriptions
        else 0 := by
  -- warnings are not the only findings, but no others are about this rule
  have hwarnings : (((ofLayer l primary).check s).warnings.countP fun f =>
        f.rule == .unusedWhenHidden && f.layer == some k)
      = (((ofLayer l primary).findings s).filter (·.layer == some k)).countP
          (·.rule == .unusedWhenHidden) := by
    rw [check, Report.ofFindings, List.countP_filter, List.countP_filter]
    refine List.countP_congr fun f hf => ?_
    have hseverity := severity_of_mem_findings hf
    by_cases hrule : f.rule = .unusedWhenHidden
    · rw [hrule] at hseverity
      simp [hrule, hseverity, Rule.severity]
    · simp [hrule]
  have hgroup (fs : List Finding) : fs.countP (·.rule == .unusedWhenHidden)
      = (fs.filter (·.rule.group == .visibility)).countP (·.rule == .unusedWhenHidden) := by
    rw [List.countP_eq_length_filter, filter_rule_eq, ← List.countP_eq_length_filter]
    rfl
  rw [hwarnings, filter_layer_findings]
  split
  · rw [hgroup, filter_group_layerFindings, List.countP_map]
    exact countP_checkVisibility
  · rename_i hk
    rw [show (ofLayer l primary).attributes k = _ from
      Arena.attributes_of_size_le (Nat.le_of_not_lt hk)]
    rfl

/-- **What hidden layers have in vain can be cleared.**  The errors stay the same, and of the
warnings just those about the cleared fields are gone. -/
theorem clearsUnused_check (l : Layer) (primary : Crs) (s : Settings) :
    (ofLayer l primary).ClearsUnused (ofLayer l.clearUnused primary) s where
  links := sameLinks_clearUnused
  attributes := attributes_clearUnused
  errors := by
    rw [errors_check, errors_check, findings_clearUnused, List.filter_filter]
    refine List.filter_congr fun f hf => ?_
    cases hseverity : f.severity with
    | warning => rfl
    | error =>
      -- what has been cleared was no error
      have hrule : f.rule ≠ .unusedWhenHidden := by
        intro hrule
        rw [severity_of_mem_findings hf, hrule] at hseverity
        cases hseverity
      exact bne_iff_ne.mpr hrule
  warnings := by
    rw [warnings_check, warnings_check, findings_clearUnused, List.filter_filter,
      List.filter_filter]
    exact List.filter_congr fun f _ => Bool.and_comm _ _
  count k := by
    rw [countP_warnings, attributes_clearUnused, Attributes.descriptions_clearUnused]
    split
    · exact Nat.add_zero _
    · exact Nat.zero_add _
  exclusive f hf g hg hunused hrequired heq := by
    obtain ⟨j, hj, hhidden, -⟩ := exists_layer_of_visibility (mem_all_check_iff.mp hf)
      (by rw [hunused]; rfl)
    obtain ⟨k, hk, -, hshown⟩ := exists_layer_of_visibility (mem_all_check_iff.mp hg)
      (by rw [hrequired]; rfl)
    obtain rfl : j = k := Option.some.inj (hj.symm.trans (heq.trans hk))
    exact absurd (hhidden hunused) (by rw [hshown hrequired]; decide)

/-- The hidden layer of the sample service has the title of a style in vain, and nothing else. -/
example : ((ofLayer Samples.service .standard).check {}).warnings.length = 1 ∧
    ((ofLayer Samples.service.clearUnused .standard).check {}).warnings = [] := by decide +kernel

end Hierarchy

end MapLayers
