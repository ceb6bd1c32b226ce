import MapLayers.Proofs.Check.Related

/-!
# The order of a report

Findings are made layer by layer in pre-order, and at each layer rule by rule.  A report keeps that
order in both of its lists: each is sorted by the position of the layer and, about one layer, by the
order of the rules in `Rule.inOrder` (`Hierarchy.ordered_check`).

Within a layer the order is that of the errors among each other and of the warnings among each
other.  All findings taken together are not sorted in this way, since the declared boxes of a layer
are gone through only once: the error about a second box and the warning about a repeated one come
as they fall.

* `AboutRule` says that all findings of a list are about one rule, which is the simplest way to be
  in order, and the one of most checks.
* `Staged` says that findings are as severe as their rules and that those of one severity are in the
  order of the rules.  Lists can be put together when the rules of the first come before those of
  the second (`Staged.append`), which for different checks follows from the order of their groups
  (`Rule.rank_le_of_groups`).
* `Finding.Precedes` orders findings by layer and then by rule, and `Hierarchy.pairwise_findings`
  says that findings of one severity are made in this order.

What is said about the hierarchy as a whole comes last and once, and only where the top layer has
been reported as hidden (`Hierarchy.exists_before_noVisibleLayer`).
-/

set_option autoImplicit false

namespace MapLayers

/-! ## The order of the rules

The order is a list, and the rank of a rule is where it stands in it.  That the groups follow one
another is decided by going through the rules. -/

namespace Rule

/-- The rules, in the order in which a layer is checked against them.  The one about the hierarchy
as a whole comes last. -/
def inOrder : List Rule :=
  [.duplicateName, .missingName,
    .groupHidden, .unusedWhenHidden, .requiredWhenVisible,
    .duplicateStyleName, .stylesUnsupported, .visualizationRequired, .visualizationForbidden,
    .dataRequired, .dataOnGroup, .rasterUnsupported, .duplicateColumn,
    .scaleRange,
    .duplicateBoundingBox, .redundantBoundingBox, .boundingBoxRequired,
    .styleNameCollision,
    .noVisibleLayer]

/-- Where a rule stands in that order. -/
def rank (r : Rule) : Nat := inOrder.idxOf r

theorem mem_all : ∀ r : Rule, r ∈ all := by
  intro r
  cases r <;> decide

/-- **The groups of rules follow one another** in the order. -/
theorem rank_le_of_groups : RuleGroup.ofLayer.Pairwise fun g i =>
    ∀ r ∈ all, r.group = g → ∀ r' ∈ all, r'.group = i → r.rank ≤ r'.rank := by
  decide +kernel

end Rule

/-- The first finding is about a layer, and the second is not about one before it, nor about the
same layer and a rule that comes earlier. -/
def Finding.Precedes (f g : Finding) : Prop :=
  ∃ j, f.layer = some j ∧
    ∀ k, g.layer = some k → j < k ∨ j = k ∧ f.rule.rank ≤ g.rule.rank

/-- The findings of a report are in order, and where they belong. -/
structure Report.Ordered (r : Report) : Prop where
  /-- The errors are sorted by layer and, about one layer, by rule. -/
  errors : r.errors.Pairwise Finding.Precedes
  /-- So are the warnings. -/
  warnings : r.warnings.Pairwise Finding.Precedes
  /-- Just the rule about the hierarchy as a whole is about no layer. -/
  layer : ∀ f ∈ r.all, f.layer = none ↔ f.rule = .noVisibleLayer
  /-- It is the very last error, it occurs once, and the top layer is reported as hidden as well. -/
  last : ∀ f ∈ r.errors, f.rule = .noVisibleLayer →
    ∃ before, r.errors = before ++ [f] ∧ (∀ g ∈ before, g.rule ≠ .noVisibleLayer) ∧
      ∃ g ∈ before, g.rule = .groupHidden ∧ g.layer = some 0
  /-- Errors are what violates the rules for errors. -/
  errorRules : ∀ f ∈ r.errors, f.severity = .error ∧ f.rule.severity = .error
  /-- Warnings are what violates the rules for warnings. -/
  warningRules : ∀ f ∈ r.warnings, f.severity = .warning ∧ f.rule.severity = .warning
  /-- Acceptance is the absence of findings about the rules for errors. -/
  accepted : r.isAccepted = true ↔ ∀ f ∈ r.all, f.rule.severity ≠ .error

/-! ## Findings of one check

Lists of findings of one check can be in order for either of two reasons: all are about one rule, or
severities tell rules apart.  Putting lists together keeps them in order when their rules are. -/

/-- All findings are about one rule, and as severe as it is. -/
def AboutRule (r : Rule) (fs : List Finding) : Prop :=
  ∀ f ∈ fs, f.rule = r ∧ f.severity = r.severity

/-- The findings are as severe as their rules, and those of one severity are in the order of the
rules. -/
structure Staged (fs : List Finding) : Prop where
  severity : ∀ f ∈ fs, f.severity = f.rule.severity
  order : fs.Pairwise fun f g => f.severity = g.severity → f.rule.rank ≤ g.rule.rank

section

variable {r r' : Rule} {fs gs : List Finding}

theorem aboutRule_nil : AboutRule r [] := List.forall_mem_nil _

theorem aboutRule_singleton {f : Finding} (hrule : f.rule = r)
    (hseverity : f.severity = r.severity) : AboutRule r [f] :=
  List.forall_mem_singleton.mpr ⟨hrule, hseverity⟩

theorem aboutRule_map {α : Type} {xs : List α} {f : α → Finding}
    (h : ∀ x, (f x).rule = r ∧ (f x).severity = r.severity) : AboutRule r (xs.map f) :=
  List.forall_mem_map.mpr fun x _ => h x

theorem AboutRule.append (h : AboutRule r fs) (h' : AboutRule r gs) : AboutRule r (fs ++ gs) :=
  List.forall_mem_append.mpr ⟨h, h'⟩

/-- When the severity of findings tells their rule, no two of them are in the wrong order. -/
theorem staged_of_severity (hseverity : ∀ f ∈ fs, f.severity = f.rule.severity)
    (hrule : ∀ f ∈ fs, ∀ g ∈ fs, f.severity = g.severity → f.rule = g.rule) : Staged fs where
  severity := hseverity
  order := List.pairwise_of_forall_mem_list fun f hf g hg h =>
    Nat.le_of_eq (congrArg Rule.rank (hrule f hf g hg h))

theorem AboutRule.staged (h : AboutRule r fs) : Staged fs :=
  staged_of_severity (fun f hf => by rw [(h f hf).2, (h f hf).1])
    fun f hf g hg _ => (h f hf).1.trans (h g hg).1.symm

theorem staged_nil : Staged [] := (aboutRule_nil (r := .scaleRange)).staged

theorem Staged.append (h : Staged fs) (h' : Staged gs)
    (hle : ∀ f ∈ fs, ∀ g ∈ gs, f.rule.rank ≤ g.rule.rank) : Staged (fs ++ gs) where
  severity := List.forall_mem_append.mpr ⟨h.severity, h'.severity⟩
  order := List.pairwise_append.mpr ⟨h.order, h'.order, fun f hf g hg _ => hle f hf g hg⟩

/-- What is said about a rule stands behind what is said about earlier ones. -/
theorem Staged.append_aboutRule (h : Staged fs) (h' : AboutRule r gs)
    (hle : ∀ f ∈ fs, f.rule.rank ≤ r.rank) : Staged (fs ++ gs) :=
  h.append h'.staged fun f hf g hg => by
    rw [(h' g hg).1]
    exact hle f hf

theorem AboutRule.rank_le (h : AboutRule r fs) (hle : r.rank ≤ r'.rank) :
    ∀ f ∈ fs, f.rule.rank ≤ r'.rank := fun f hf => by
  rw [(h f hf).1]
  exact hle

end

/-! ## The checks of a layer

One lemma for each check.  Visibility needs the most care, as the findings about a hidden layer are
of two rules and come field by field, those of the styles after those of the layer. -/

section

variable {a : Attributes} {role : Role} {s : Settings}

theorem staged_checkName {names : Holders} : Staged (checkName names a role) := by
  rw [checkName]
  split
  · split
    · exact staged_nil
    · exact (aboutRule_singleton rfl rfl).staged
  · split
    · exact staged_nil
    · exact (aboutRule_singleton rfl rfl).staged

/-- What is said about a hidden layer as a whole. -/
def hiddenFindings (role : Role) : List Finding :=
  if role = .data then [] else [Finding.of .groupHidden]

/-- What is said about the title and the description of a style of a hidden layer. -/
def unusedStyleFindings (st : Style) : List Finding :=
  ([(st.title.isSome, Field.styleTitle), (st.abstract.isSome, .styleAbstract)].filter
    (·.1)).map fun (_, field) =>
      { Finding.of .unusedWhenHidden with field := some field, style := some st.name }

/-- What is said about the fields of a hidden layer and of its styles. -/
def unusedFindings (a : Attributes) : List Finding :=
  ([(a.title.isSome, Field.title), (a.abstract.isSome, .abstract),
      (a.keywords.isSome, .keywords), (a.metadata.isSome, .datasetMetadataUrl)].filter
    (·.1)).map (fun (_, field) => { Finding.of .unusedWhenHidden with field := some field })
    ++ a.styles.flatMap unusedStyleFindings

theorem checkHidden_eq : checkHidden a role = hiddenFindings role ++ unusedFindings a :=
  List.append_assoc _ _ _

theorem aboutRule_hiddenFindings : AboutRule .groupHidden (hiddenFindings role) := by
  rw [hiddenFindings]
  split
  · exact aboutRule_nil
  · exact aboutRule_singleton rfl rfl

theorem aboutRule_unusedFindings : AboutRule .unusedWhenHidden (unusedFindings a) :=
  .append (aboutRule_map fun _ => ⟨rfl, rfl⟩)
    (List.forall_mem_flatMap.mpr fun _ _ => aboutRule_map fun _ => ⟨rfl, rfl⟩)

theorem aboutRule_checkShown : AboutRule .requiredWhenVisible (checkShown a) :=
  .append (aboutRule_map fun _ => ⟨rfl, rfl⟩) (aboutRule_map fun _ => ⟨rfl, rfl⟩)

theorem staged_checkVisibility : Staged (checkVisibility a role) := by
  rw [checkVisibility]
  split
  · rw [checkHidden_eq]
    exact aboutRule_hiddenFindings.staged.append_aboutRule aboutRule_unusedFindings
      (aboutRule_hiddenFindings.rank_le (by decide))
  · exact aboutRule_checkShown.staged

/-- The styles of one layer all violate the same rule about drawing instructions, if any. -/
theorem eq_of_visualizationRule {static : Bool} {st : Style} {rule : Rule}
    (h : visualizationRule static role st = some rule) :
    rule = if role = .data ∧ static = false then .visualizationRequired
      else .visualizationForbidden := by
  rw [visualizationRule] at h
  split at h <;> split at h
  · cases h
  · rw [if_pos ‹_›]
    exact (Option.some.inj h).symm
  · rw [if_neg ‹_›]
    exact (Option.some.inj h).symm
  · cases h

theorem staged_checkStyles : Staged (checkStyles s a role) := by
  rw [checkStyles]
  have hduplicates : AboutRule .duplicateStyleName
      ((repeated [] (a.styles.map Style.name)).map fun name =>
        { Finding.of .duplicateStyleName with style := some name, field := some .styles }) :=
    aboutRule_map fun _ => ⟨rfl, rfl⟩
  split
  · refine hduplicates.staged.append_aboutRule
      (r := if role = .data ∧ s.staticDrawing = false then .visualizationRequired
        else .visualizationForbidden) ?_ (hduplicates.rank_le ?_)
    · intro f hf
      obtain ⟨st, -, hst⟩ := List.mem_filterMap.mp hf
      obtain ⟨rule, hrule, rfl⟩ := Option.map_eq_some_iff.mp hst
      rw [← eq_of_visualizationRule hrule]
      exact ⟨rfl, rfl⟩
    · split <;> decide
  · split
    · rw [List.append_nil]
      exact hduplicates.staged
    · exact hduplicates.staged.append_aboutRule (r := .stylesUnsupported)
        (aboutRule_singleton rfl rfl) (hduplicates.rank_le (by decide))

theorem staged_checkSource : Staged (checkSource s a role) := by
  rw [checkSource]
  split
  · split
    · exact (aboutRule_singleton rfl rfl).staged
    · exact staged_nil
  · rename_i source _
    have hgroup : AboutRule .dataOnGroup
        (if role = .data then [] else [{ Finding.of .dataOnGroup with field := some .data }]) := by
      split
      · exact aboutRule_nil
      · exact aboutRule_singleton rfl rfl
    have hraster : AboutRule .rasterUnsupported
        (if source.isRaster && !s.kind.publishesRasters then
          [{ Finding.of .rasterUnsupported with
              field := some .data, detail := some s.kind.label }]
        else []) := by
      split
      · exact aboutRule_singleton rfl rfl
      · exact aboutRule_nil
    refine (hgroup.staged.append_aboutRule hraster (hgroup.rank_le (by decide))).append_aboutRule
      (r := .duplicateColumn) (aboutRule_map fun _ => ⟨rfl, rfl⟩) ?_
    exact List.forall_mem_append.mpr ⟨hgroup.rank_le (by decide), hraster.rank_le (by decide)⟩

theorem staged_checkScales : Staged (checkScales a) := by
  rw [checkScales]
  split
  · split
    · exact (aboutRule_singleton rfl rfl).staged
    · exact staged_nil
  · exact staged_nil

/-- Of the two rules about declared boxes, one is for errors and one for warnings. -/
theorem staged_checkDeclaredBoxes {inherited : Crs → Option EffectiveBox} {seen : List Crs}
    {bs : List DeclaredBox} : Staged (checkDeclaredBoxes inherited seen bs) := by
  have hrule : ∀ f ∈ checkDeclaredBoxes inherited seen bs, f.severity = f.rule.severity ∧
      f.rule = if f.severity = .error then .duplicateBoundingBox else .redundantBoundingBox := by
    intro f hf
    obtain ⟨b, -, rfl | ⟨e, -, -, rfl⟩⟩ := cases_of_mem_checkDeclaredBoxes hf
    · exact ⟨rfl, rfl⟩
    · exact ⟨rfl, rfl⟩
  refine staged_of_severity (fun f hf => (hrule f hf).1) fun f hf g hg hseverity => ?_
  rw [(hrule f hf).2, (hrule g hg).2, hseverity]

theorem aboutRule_checkPrimaryBox {effective : Option EffectiveBox} :
    AboutRule .boundingBoxRequired (checkPrimaryBox s effective) := by
  rw [checkPrimaryBox]
  split
  · exact aboutRule_nil
  · split
    · exact aboutRule_nil
    · exact aboutRule_singleton rfl rfl

theorem staged_checkSharedStyles {parent : Option Nat} {shared : List String} :
    Staged (checkSharedStyles a parent shared) := by
  rw [checkSharedStyles]
  split
  · exact AboutRule.staged (r := .styleNameCollision) (aboutRule_map fun _ => ⟨rfl, rfl⟩)
  · exact staged_nil

end

/-! ## One layer -/

namespace Hierarchy

variable {h : Hierarchy} {l : Layer} {primary : Crs} {s : Settings} {k : Nat} {f : Finding}
  {shared : List (Nat × List String)} {names : Holders}

/-- **Each group has its findings in order.** -/
theorem staged_groupFindings : ∀ g, Staged (h.groupFindings s shared names k g)
  | .names => staged_checkName
  | .visibility => staged_checkVisibility
  | .styles => staged_checkStyles
  | .source => staged_checkSource
  | .scales => staged_checkScales
  | .boxes => staged_checkDeclaredBoxes.append_aboutRule aboutRule_checkPrimaryBox fun f hf => by
      rcases rule_of_mem_checkDeclaredBoxes hf with hrule | hrule <;> (rw [hrule]; decide)
  | .sharedStyles => staged_checkSharedStyles
  | .hierarchy => staged_nil

/-- **The groups come in order.** -/
theorem staged_layerFindings : Staged (h.layerFindings s shared names k) := by
  rw [layerFindings_eq_groups]
  refine ⟨List.forall_mem_map.mpr (List.forall_mem_flatMap.mpr fun g _ =>
    (staged_groupFindings g).severity), List.pairwise_map.mpr (List.pairwise_flatMap.mpr
      ⟨fun g _ => (staged_groupFindings g).order, ?_⟩)⟩
  refine Rule.rank_le_of_groups.imp fun hgroups f hf g hg _ => ?_
  exact hgroups _ (Rule.mem_all _) (ofGroup_groupFindings _ f hf) _ (Rule.mem_all _)
    (ofGroup_groupFindings _ g hg)

/-! ## The walk

The findings of a layer are in order, and those of different layers are told apart by the layer.
The rule about the hierarchy as a whole has no layer, and what is said about it comes last. -/

theorem mem_checkAnyVisible_iff : f ∈ h.checkAnyVisible ↔
    f = Finding.of .noVisibleLayer ∧ ∀ k ∈ h.all, (h.attributes k).isVisible = false := by
  rw [checkAnyVisible]
  split
  · rename_i hvisible
    obtain ⟨k, hk, hvisible⟩ := List.any_eq_true.mp hvisible
    refine iff_of_false List.not_mem_nil fun hnone => ?_
    rw [hnone.2 k hk] at hvisible
    cases hvisible
  · rename_i hnone
    rw [Bool.not_eq_true, List.any_eq_false] at hnone
    rw [List.mem_singleton]
    exact (and_iff_left fun k hk => (Bool.not_eq_true _).mp (hnone k hk)).symm

/-- A finding is made at a layer, or about the hierarchy as a whole. -/
theorem exists_layerFindings_or (hf : f ∈ (ofLayer l primary).findings s) :
    (∃ k, f ∈ (ofLayer l primary).layerFindings s ((ofLayer l primary).forbiddenShared s)
        ((ofLayer l primary).holdersBefore k) k) ∨ f ∈ (ofLayer l primary).checkAnyVisible := by
  rw [findings_eq, List.mem_append, List.mem_flatMap] at hf
  exact hf.imp_left fun ⟨k, _, hk⟩ => ⟨k, hk⟩

/-- **Findings of one severity are made in order.** -/
theorem pairwise_findings (l : Layer) (primary : Crs) (s : Settings) :
    ((ofLayer l primary).findings s).Pairwise fun f g =>
      f.severity = g.severity → f.Precedes g := by
  rw [findings_eq]
  refine List.pairwise_append.mpr ⟨List.pairwise_flatMap.mpr ⟨fun k _ => ?_, ?_⟩, ?_, ?_⟩
  · refine staged_layerFindings.order.imp_of_mem fun hf hg hrank hseverity => ?_
    refine ⟨k, layer_of_mem_layerFindings hf, fun j hj => Or.inr ⟨?_, hrank hseverity⟩⟩
    exact Option.some.inj ((layer_of_mem_layerFindings hg).symm.trans hj)
  · rw [all_eq_range]
    refine List.pairwise_lt_range.imp fun {j k} hjk f hf g hg _ => ?_
    refine ⟨j, layer_of_mem_layerFindings hf, fun i hi => Or.inl ?_⟩
    rwa [← Option.some.inj ((layer_of_mem_layerFindings hg).symm.trans hi)]
  · rw [checkAnyVisible]
    split
    · exact .nil
    · exact List.pairwise_singleton _ _
  · intro f hf g hg _
    obtain ⟨k, -, hf⟩ := List.mem_flatMap.mp hf
    refine ⟨k, layer_of_mem_layerFindings hf, fun j hj => ?_⟩
    -- what is said about the hierarchy as a whole has no layer
    rw [(mem_checkAnyVisible_iff.mp hg).1] at hj
    cases hj

/-- Findings are as severe as their rules. -/
theorem severity_of_mem_findings (hf : f ∈ (ofLayer l primary).findings s) :
    f.severity = f.rule.severity := by
  rcases exists_layerFindings_or hf with ⟨k, hf⟩ | hf
  · exact staged_layerFindings.severity f hf
  · rw [(mem_checkAnyVisible_iff.mp hf).1]
    rfl

/-- Just the rule about the hierarchy as a whole is about no layer. -/
theorem layer_eq_none_iff (hf : f ∈ (ofLayer l primary).findings s) :
    f.layer = none ↔ f.rule = .noVisibleLayer := by
  rcases cases_of_mem_findings hf with rfl | ⟨hrule, k, hk⟩
  · exact iff_of_true rfl rfl
  · refine iff_of_false ?_ hrule
    rw [hk.layer]
    exact Option.some_ne_none k

/-- That no layer is visible is said only when none is. -/
theorem isVisible_eq_false_of_mem_findings (hf : f ∈ (ofLayer l primary).findings s)
    (hrule : f.rule = .noVisibleLayer) :
    ∀ k ∈ (ofLayer l primary).all, ((ofLayer l primary).attributes k).isVisible = false := by
  have hlayer := (layer_eq_none_iff hf).mpr hrule
  rcases exists_layerFindings_or hf with ⟨k, hk⟩ | hf
  · rw [layer_of_mem_layerFindings hk] at hlayer
    cases hlayer
  · exact (mem_checkAnyVisible_iff.mp hf).2

/-- A hidden top layer is reported. -/
theorem groupHidden_mem_findings (hhidden : ((ofLayer l primary).attributes 0).isVisible = false) :
    (Finding.of .groupHidden).located 0 ((ofLayer l primary).attributes 0).name
      ∈ (ofLayer l primary).findings s := by
  have htop : Place.top l ∈ (Place.top l).all := Place.mem_all_self _
  have hrole : (ofLayer l primary).role 0 = .top :=
    (Arena.role_eq htop).trans (Place.role_eq_top_iff.mpr rfl)
  have hidden : ((ofLayer l primary).attributes 0).isHidden = true := by
    rw [Attributes.isHidden_eq_not_isVisible, hhidden]
    rfl
  refine (mem_findings_iff (k := 0) rfl).mpr
    ⟨Arena.position_lt_size htop, Finding.of .groupHidden, ?_, rfl⟩
  change Finding.of .groupHidden ∈ checkVisibility _ _
  rw [checkVisibility, if_pos hidden, checkHidden_eq, hrole]
  exact List.mem_append_left _ (List.mem_singleton_self _)

/-! ## The report

All findings in one list of a report are equally severe, so the order within a severity is the order
of the list. -/

theorem errors_check (h : Hierarchy) (s : Settings) :
    (h.check s).errors = (h.findings s).filter (·.severity == .error) := rfl

theorem warnings_check (h : Hierarchy) (s : Settings) :
    (h.check s).warnings = (h.findings s).filter (·.severity == .warning) := rfl

/-- The findings about a rule are all of the severity of the rule. -/
theorem filter_rule_of_severity (l : Layer) (primary : Crs) (s : Settings) (severity : Severity)
    (rule : Rule) : (((ofLayer l primary).findings s).filter (·.severity == severity)).filter
        (·.rule == rule)
      = if rule.severity = severity then ((ofLayer l primary).findings s).filter (·.rule == rule)
        else [] := by
  rw [List.filter_comm]
  split
  · rename_i h
    refine List.filter_eq_self.mpr fun f hf => ?_
    obtain ⟨hmem, hrule⟩ := List.mem_filter.mp hf
    rw [severity_of_mem_findings hmem, beq_iff_eq.mp hrule, h]
    exact beq_self_eq_true _
  · rename_i h
    refine List.filter_eq_nil_iff.mpr fun f hf heq => h ?_
    obtain ⟨hmem, hrule⟩ := List.mem_filter.mp hf
    rw [← beq_iff_eq.mp hrule, ← severity_of_mem_findings hmem, beq_iff_eq.mp heq]

/-- A report has all findings about a rule. -/
theorem ofRule_check (l : Layer) (primary : Crs) (s : Settings) (rule : Rule) :
    ((ofLayer l primary).check s).ofRule rule
      = ((ofLayer l primary).findings s).filter (·.rule == rule) := by
  rw [Report.ofRule, Report.all, errors_check, warnings_check, List.filter_append,
    filter_rule_of_severity, filter_rule_of_severity]
  cases rule.severity with
  | error => exact List.append_nil _
  | warning => rfl

/-- A list of the report is sorted, since all its findings are equally severe. -/
theorem pairwise_filter_findings (l : Layer) (primary : Crs) (s : Settings) (severity : Severity) :
    (((ofLayer l primary).findings s).filter (·.severity == severity)).Pairwise
      Finding.Precedes := by
  refine ((pairwise_findings l primary s).filter _).imp_of_mem fun hf hg h => h ?_
  rw [beq_iff_eq.mp (List.mem_filter.mp hf).2, beq_iff_eq.mp (List.mem_filter.mp hg).2]

/-- Nothing comes after what is said about the hierarchy as a whole. -/
theorem eq_concat_of_pairwise {fs : List Finding} (hsorted : fs.Pairwise Finding.Precedes)
    (hf : f ∈ fs) (hlayer : f.layer = none) :
    ∃ before, fs = before ++ [f] ∧ ∀ g ∈ before, g.layer ≠ none := by
  obtain ⟨before, after, rfl⟩ := List.append_of_mem hf
  rw [List.pairwise_append, List.pairwise_cons] at hsorted
  obtain ⟨-, ⟨hafter, -⟩, hbefore⟩ := hsorted
  have hnil : after = [] := by
    refine List.eq_nil_iff_forall_not_mem.mpr fun g hg => ?_
    obtain ⟨j, hj, -⟩ := hafter g hg
    rw [hlayer] at hj
    cases hj
  refine ⟨before, by rw [hnil], fun g hg hnone => ?_⟩
  obtain ⟨j, hj, -⟩ := hbefore g hg f List.mem_cons_self
  rw [hnone] at hj
  cases hj

/-- That no layer is visible is said last and once, and the top layer has been reported before. -/
theorem exists_before_noVisibleLayer (hf : f ∈ ((ofLayer l primary).check s).errors)
    (hrule : f.rule = .noVisibleLayer) :
    ∃ before, ((ofLayer l primary).check s).errors = before ++ [f] ∧
      (∀ g ∈ before, g.rule ≠ .noVisibleLayer) ∧
        ∃ g ∈ before, g.rule = .groupHidden ∧ g.layer = some 0 := by
  have hmem := (mem_errors_check_iff.mp hf).1
  have hlayer := (layer_eq_none_iff hmem).mpr hrule
  have hsorted : ((ofLayer l primary).check s).errors.Pairwise Finding.Precedes :=
    pairwise_filter_findings l primary s .error
  obtain ⟨before, herrors, hbefore⟩ := eq_concat_of_pairwise hsorted hf hlayer
  refine ⟨before, herrors, fun g hg hrule' => hbefore g hg ?_, ?_⟩
  · have hg : g ∈ ((ofLayer l primary).check s).errors := by
      rw [herrors]
      exact List.mem_append_left _ hg
    exact (layer_eq_none_iff (mem_errors_check_iff.mp hg).1).mpr hrule'
  · have hhidden := isVisible_eq_false_of_mem_findings hmem hrule 0
      (mem_all_iff.mpr (Arena.position_lt_size (Place.mem_all_self (Place.top l))))
    have htop := mem_errors_check_iff.mpr ⟨groupHidden_mem_findings (s := s) hhidden, rfl⟩
    rw [herrors, List.mem_append, List.mem_singleton] at htop
    refine ⟨_, htop.resolve_right fun heq => ?_, rfl, rfl⟩
    -- the one is about a layer, and the other is not
    rw [← heq] at hlayer
    cases hlayer

/-- **Reports are in order**: by layer, then by rule, and what is said about the hierarchy as a
whole last. -/
theorem ordered_check (l : Layer) (primary : Crs) (s : Settings) :
    ((ofLayer l primary).check s).Ordered where
  errors := pairwise_filter_findings l primary s .error
  warnings := pairwise_filter_findings l primary s .warning
  layer f hf := layer_eq_none_iff (mem_all_check_iff.mp hf)
  last f hf hrule := exists_before_noVisibleLayer hf hrule
  errorRules f hf := by
    obtain ⟨hmem, hseverity⟩ := mem_errors_check_iff.mp hf
    exact ⟨hseverity, (severity_of_mem_findings hmem).symm.trans hseverity⟩
  warningRules f hf := by
    obtain ⟨hmem, hseverity⟩ := List.mem_filter.mp hf
    rw [beq_iff_eq] at hseverity
    exact ⟨hseverity, (severity_of_mem_findings hmem).symm.trans hseverity⟩
  accepted := by
    rw [Report.isAccepted, List.isEmpty_iff, List.eq_nil_iff_forall_not_mem]
    refine forall_congr' fun f => ?_
    rw [mem_errors_check_iff, mem_all_check_iff, not_and]
    exact forall_congr' fun hf => by rw [severity_of_mem_findings hf]

/-- A service that is hidden altogether, with two layers of one name. -/
example : ((ofLayer (.node { name := some "map", visible := some false }
      [.leaf { name := some "map", visible := some false }]) .standard).check {}).errors.map
        (fun f => (f.layer, f.rule)) =
    [(some 0, .groupHidden), (some 1, .duplicateName), (some 1, .dataRequired),
      (none, .noVisibleLayer)] := by
  decide +kernel

end Hierarchy

end MapLayers
