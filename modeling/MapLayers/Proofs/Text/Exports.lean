import MapLayers.Proofs.Check.Order
import MapLayers.Proofs.Number.Literals
import MapLayers.Proofs.Wire.Fields

/-!
# Exported reports say everything

An exported report can be read back (`Report.ofExported`), so nothing of a report is lost when it is
exported: what is left out of an object was absent, and the text of a number or a key stands for
nothing else.

There is one point where that depends on the checks.  The title of a style goes by the label of the
title of a layer, and so do the descriptions (`Field.label`).  What tells them apart is whether a
style is given.  Findings could be made up for which this fails; all that the checks find *fit*
(`Hierarchy.fits_of_mem_findings`).  Hence the headline, `Hierarchy.exportsInFull`: reports are
equal when they are exported as one value, and so are findings.

A reader passes over three members: code and message follow from the rule and the rest of the
finding, and the name of the second layer from its position.  That an object has at most one member
for each key, in order, is what makes reading it a matter of looking keys up
(`Finding.objectFields_members`).

The last part goes through the checks once more, for the fields that they give and whether they give
a style with them.  It is one lemma for each check, put together by group, by layer and for the
whole walk.
-/

set_option autoImplicit false

namespace MapLayers

open Json (asText asList)

/-! ## Reading an exported report

The reader is not part of the program; it is there to show that nothing is lost. -/

/-- The natural number that a value is. -/
def Json.asNat : Json → Option Nat
  | .number n => n.toNat?
  | _ => none

namespace Field

/-- Whether a finding about the field may be about a style, or not.  Just two labels stand for a
field of a layer and for one of a style. -/
def fits (ofStyle : Bool) : Field → Bool
  | .title | .abstract => !ofStyle
  | .styleTitle | .styleAbstract => ofStyle
  | _ => true

/-- The field of a label, in a finding that is about a style or not. -/
def ofLabel (ofStyle : Bool) (label : String) : Option Field :=
  all.find? fun field => field.fits ofStyle && field.label == label

end Field

namespace Finding

/-- The keys of an exported finding, in order. -/
def exportedKeys : List String :=
  ["code", "detail", "field", "layer", "layerName", "message", "related", "relatedName", "rule",
    "severity", "style"]

/-- A finding from the object that was exported for it.  Code and message go with the rule, and the
name of the second layer with its position. -/
def ofExported (json : Json) : Option Finding := do
  let ms ← Json.objectFields exportedKeys json
  let severity ← ms.required "severity" fun j => (asText j).bind Severity.ofLabel
  let rule ← ms.required "rule" fun j => (asText j).bind Rule.ofKey
  let layer ← ms.optional "layer" Json.asNat
  let layerName ← ms.optional "layerName" asText
  let style ← ms.optional "style" asText
  let field ← ms.optional "field" fun j => (asText j).bind (Field.ofLabel style.isSome)
  let related ← ms.optional "related" Json.asNat
  let detail ← ms.optional "detail" asText
  return { severity, rule, layer, layerName, style, field, related, detail }

/-- The field of the finding is that of a style just when a style is given. -/
def Fits (f : Finding) : Prop := ∀ field, f.field = some field → field.fits f.style.isSome = true

end Finding

/-- A report from the object that was exported for it. -/
def Report.ofExported (json : Json) : Option Report := do
  let ms ← Json.objectFields ["accepted", "errors", "warnings"] json
  let errors ← ms.required "errors" (asList Finding.ofExported)
  let warnings ← ms.required "warnings" (asList Finding.ofExported)
  return { errors, warnings }

/-- The exported reports on two hierarchies say everything about the reports. -/
structure Hierarchy.ExportsInFull (h h' : Hierarchy) (s s' : Settings) : Prop where
  /-- The report can be exported, and what it says about acceptance agrees with its list of
  errors. -/
  accepted : ∃ accepted errors warnings, (h.check s).exported h.toArena
      = .ok (.record [("accepted", .bool accepted), ("errors", .array errors),
          ("warnings", .array warnings)]) ∧
    (accepted = true ↔ errors = [])
  /-- The report reads back from what is exported of it. -/
  readBack : ∀ json, (h.check s).exported h.toArena = .ok json →
    Report.ofExported json = some (h.check s)
  /-- Reports that are exported as one value are equal. -/
  report : ∀ json, (h.check s).exported h.toArena = .ok json →
    (h'.check s').exported h'.toArena = .ok json → h.check s = h'.check s'
  /-- Findings that are exported as one object are equal. -/
  finding : ∀ f ∈ (h.check s).all, ∀ g ∈ (h'.check s').all, ∀ json,
    f.exported h.toArena = .ok json → g.exported h'.toArena = .ok json → f = g

/-! ## Keys and labels -/

theorem Json.asNat_nat (n : Nat) : asNat (nat n) = some n := Numeral.toNat?_ofNat n

theorem Severity.ofLabel_label (severity : Severity) : ofLabel severity.label = some severity := by
  cases severity <;> rfl

theorem Rule.ofKey_key (rule : Rule) : ofKey rule.key = some rule := by
  cases rule <;> decide

/-- Whether a style is given tells which field a label stands for. -/
theorem Field.ofLabel_label {ofStyle : Bool} {field : Field} (h : field.fits ofStyle = true) :
    ofLabel ofStyle field.label = some field := by
  revert h
  cases field <;> cases ofStyle <;> decide

/-! ## Reading back

The members of an object are in the order of their keys, with those left out for which there is
nothing to say.  Looking a key up finds its member or nothing, which is what a reader of optional
values expects. -/

namespace Finding

variable {t : Arena} {f : Finding} {json : Json} {ms : Fields}

theorem ofExported_eq_some_iff (h : Json.objectFields exportedKeys json = some ms) :
    ofExported json = some f ↔
      (ms.required "severity" fun j => (asText j).bind Severity.ofLabel) = some f.severity ∧
      (ms.required "rule" fun j => (asText j).bind Rule.ofKey) = some f.rule ∧
      ms.optional "layer" Json.asNat = some f.layer ∧
      ms.optional "layerName" asText = some f.layerName ∧
      ms.optional "style" asText = some f.style ∧
      (ms.optional "field" fun j => (asText j).bind (Field.ofLabel f.style.isSome))
        = some f.field ∧
      ms.optional "related" Json.asNat = some f.related ∧
      ms.optional "detail" asText = some f.detail := by
  cases f
  simp only [ofExported, h, Option.bind_eq_bind, Option.bind_some, Option.bind_eq_some_iff,
    Option.pure_def, Option.some.injEq, mk.injEq]
  grind

/-- The members of an exported finding, but for the name of the second layer. -/
def members (f : Finding) (relatedName : Fields) : Fields :=
  [("code", .text f.rule.code)]
    ++ (Fields.ofOption "detail" .text f.detail
    ++ (Fields.ofOption "field" (.text ·.label) f.field
    ++ (Fields.ofOption "layer" .nat f.layer
    ++ (Fields.ofOption "layerName" .text f.layerName
    ++ ([("message", .text f.message)]
    ++ (Fields.ofOption "related" .nat f.related
    ++ (relatedName
    ++ ([("rule", .text f.rule.key), ("severity", .text f.severity.label)]
    ++ Fields.ofOption "style" .text f.style))))))))

/-- The name of the second layer is one member at most. -/
theorem exists_relatedName (h : f.relatedName t = .ok ms) :
    ∃ name : Option String, ms = Fields.ofOption "relatedName" .text name := by
  rw [relatedName] at h
  split at h
  · exact ⟨none, (Except.ok.inj h).symm⟩
  · obtain ⟨name, -, rfl⟩ := map_eq_ok_iff.mp h
    exact ⟨name, rfl⟩

theorem exists_members (h : f.exported t = .ok json) : ∃ name : Option String,
    json = .record (f.members (Fields.ofOption "relatedName" .text name)) := by
  rw [exported] at h
  obtain ⟨ms, hms, hrecord⟩ := exists_of_bind_eq_ok h
  obtain ⟨name, rfl⟩ := exists_relatedName hms
  refine ⟨name, (Except.ok.inj hrecord).symm.trans ?_⟩
  simp only [members, List.append_assoc]

theorem objectFields_members (f : Finding) (name : Option String) :
    Json.objectFields exportedKeys (.record (f.members (Fields.ofOption "relatedName" .text name)))
      = some (f.members (Fields.ofOption "relatedName" .text name)) :=
  Json.memberFields_record (by decide) <|
    .cons_cons _ <| Fields.sublist_ofOption _ <| Fields.sublist_ofOption _ <|
      Fields.sublist_ofOption _ <| Fields.sublist_ofOption _ <| .cons_cons _ <|
      Fields.sublist_ofOption _ <| Fields.sublist_ofOption _ <| .cons_cons _ <| .cons_cons _ <|
      Fields.sublist_ofOption_nil _

/-- **A finding that fits reads back.** -/
theorem ofExported_exported (hfits : f.Fits) (h : f.exported t = .ok json) :
    ofExported json = some f := by
  obtain ⟨name, rfl⟩ := exists_members h
  rw [ofExported_eq_some_iff (objectFields_members f name),
    Fields.required_eq (.text f.severity.label) (by simp [members, List.lookup_append]),
    Fields.required_eq (.text f.rule.key) (by simp [members, List.lookup_append]),
    Fields.optional_iff Json.nat (by simp [members, List.lookup_append]) nofun,
    Fields.optional_iff Json.text (by simp [members, List.lookup_append]) nofun,
    Fields.optional_iff Json.text (by simp [members, List.lookup_append]) nofun,
    Fields.optional_iff (fun field : Field => .text field.label)
      (by simp [members, List.lookup_append]) nofun,
    Fields.optional_iff Json.nat (by simp [members, List.lookup_append]) nofun,
    Fields.optional_iff Json.text (by simp [members, List.lookup_append]) nofun]
  exact ⟨Severity.ofLabel_label _, Rule.ofKey_key _, fun k _ => Json.asNat_nat k, fun _ _ => rfl,
    fun _ _ => rfl, fun field hfield => Field.ofLabel_label (hfits field hfield),
    fun k _ => Json.asNat_nat k, fun _ _ => rfl⟩

/-- Findings that fit read back one by one. -/
theorem asList_ofExported : ∀ {fs : List Finding} {items : List Json}, (∀ f ∈ fs, f.Fits) →
    fs.mapM (exported t) = .ok items → asList ofExported (.array items) = some fs
  | [], _, _, h => by
    cases h
    rfl
  | f :: fs, _, hfits, h => by
    rw [List.forall_mem_cons] at hfits
    rw [List.mapM_cons] at h
    obtain ⟨item, hitem, h⟩ := exists_of_bind_eq_ok h
    obtain ⟨items, hitems, h⟩ := exists_of_bind_eq_ok h
    cases h
    have hrest : items.mapM ofExported = some fs := asList_ofExported hfits.2 hitems
    rw [asList, List.mapM_cons, ofExported_exported hfits.1 hitem, hrest]
    rfl

end Finding

namespace Report

variable {t : Arena} {r : Report} {json : Json}

/-- An exported report has the two lists of findings, and tells whether the first one is empty. -/
theorem exists_items (h : r.exported t = .ok json) : ∃ errors warnings,
    r.errors.mapM (Finding.exported t) = .ok errors ∧
    r.warnings.mapM (Finding.exported t) = .ok warnings ∧
    json = .record [("accepted", .bool r.isAccepted), ("errors", .array errors),
      ("warnings", .array warnings)] := by
  rw [exported] at h
  obtain ⟨errors, herrors, h⟩ := exists_of_bind_eq_ok h
  obtain ⟨warnings, hwarnings, h⟩ := exists_of_bind_eq_ok h
  exact ⟨errors, warnings, herrors, hwarnings, (Except.ok.inj h).symm⟩

/-- **A report of findings that fit reads back.** -/
theorem ofExported_exported (hfits : ∀ f ∈ r.all, f.Fits) (h : r.exported t = .ok json) :
    ofExported json = some r := by
  rw [all, List.forall_mem_append] at hfits
  obtain ⟨errors, warnings, herrors, hwarnings, rfl⟩ := exists_items h
  have hfields (ms : Fields) (hms : ms.map (·.1) = ["accepted", "errors", "warnings"]) :
      Json.objectFields ["accepted", "errors", "warnings"] (.record ms) = some ms :=
    Json.memberFields_record (by decide) (by rw [hms])
  rw [ofExported, hfields _ rfl]
  simp [Finding.asList_ofExported hfits.1 herrors, Finding.asList_ofExported hfits.2 hwarnings]

/-- The list of errors is empty when there are none. -/
theorem isAccepted_iff_of_mapM {items : List Json}
    (h : r.errors.mapM (Finding.exported t) = .ok items) : r.isAccepted = true ↔ items = [] := by
  rw [isAccepted, List.isEmpty_iff]
  cases herrors : r.errors with
  | nil =>
    rw [herrors] at h
    cases h
    exact iff_of_true rfl rfl
  | cons f fs =>
    rw [herrors, List.mapM_cons] at h
    obtain ⟨item, -, h⟩ := exists_of_bind_eq_ok h
    obtain ⟨rest, -, h⟩ := exists_of_bind_eq_ok h
    cases h
    exact iff_of_false (List.cons_ne_nil _ _) (List.cons_ne_nil _ _)

end Report

/-! ## What the checks find

One lemma for each check, about the fields that it gives and whether a style comes with them. -/

section

variable {a : Attributes} {role : Role} {s : Settings} {f : Finding} {field : Field}

theorem Finding.fits_of_none (h : f.field = none) : f.Fits := fun field hfield => by
  rw [h] at hfield
  cases hfield

theorem Finding.fits_of_some (h : f.field = some field) (hfits : field.fits f.style.isSome = true) :
    f.Fits := fun field' hfield' => by
  rw [h] at hfield'
  cases hfield'
  exact hfits

/-- The fields that are chosen are among those on offer. -/
theorem Field.fits_of_mem_filter {ofStyle : Bool} {choices : List (Bool × Field)} {p : Bool × Field}
    (hp : p ∈ choices.filter (·.1)) (h : ∀ field ∈ choices.map (·.2), field.fits ofStyle = true) :
    p.2.fits ofStyle = true :=
  h _ (List.mem_map_of_mem (List.mem_of_mem_filter hp))

theorem fits_checkName {names : Holders} : ∀ f ∈ checkName names a role, f.Fits := by
  rw [checkName]
  split
  · split
    · exact List.forall_mem_nil _
    · exact List.forall_mem_singleton.mpr (Finding.fits_of_some rfl rfl)
  · split
    · exact List.forall_mem_nil _
    · exact List.forall_mem_singleton.mpr (Finding.fits_of_some rfl rfl)

theorem fits_hiddenFindings : ∀ f ∈ hiddenFindings role, f.Fits := by
  rw [hiddenFindings]
  split
  · exact List.forall_mem_nil _
  · exact List.forall_mem_singleton.mpr (Finding.fits_of_none rfl)

/-- The fields of a hidden layer are given without a style, and those of its styles with one. -/
theorem fits_unusedFindings : ∀ f ∈ unusedFindings a, f.Fits := by
  have hlayer : ∀ field ∈ [Field.title, .abstract, .keywords, .datasetMetadataUrl],
      field.fits false = true := by decide
  have hstyle : ∀ field ∈ [Field.styleTitle, .styleAbstract], field.fits true = true := by decide
  refine List.forall_mem_append.mpr ⟨List.forall_mem_map.mpr fun p hp => ?_,
    List.forall_mem_flatMap.mpr fun st _ => List.forall_mem_map.mpr fun p hp => ?_⟩
  · exact Finding.fits_of_some rfl (Field.fits_of_mem_filter hp hlayer)
  · exact Finding.fits_of_some rfl (Field.fits_of_mem_filter hp hstyle)

/-- So it is with what a visible layer lacks. -/
theorem fits_checkShown : ∀ f ∈ checkShown a, f.Fits := by
  have hlayer : ∀ field ∈ [Field.title, .abstract, .keywords], field.fits false = true := by decide
  refine List.forall_mem_append.mpr ⟨List.forall_mem_map.mpr fun p hp => ?_,
    List.forall_mem_map.mpr fun st _ => Finding.fits_of_some rfl rfl⟩
  exact Finding.fits_of_some rfl (Field.fits_of_mem_filter hp hlayer)

theorem fits_checkVisibility : ∀ f ∈ checkVisibility a role, f.Fits := by
  rw [checkVisibility]
  split
  · rw [checkHidden_eq]
    exact List.forall_mem_append.mpr ⟨fits_hiddenFindings, fits_unusedFindings⟩
  · exact fits_checkShown

theorem fits_checkStyles : ∀ f ∈ checkStyles s a role, f.Fits := by
  rw [checkStyles]
  refine List.forall_mem_append.mpr
    ⟨List.forall_mem_map.mpr fun _ _ => Finding.fits_of_some rfl rfl, ?_⟩
  split
  · intro f hf
    obtain ⟨st, -, hst⟩ := List.mem_filterMap.mp hf
    obtain ⟨rule, -, rfl⟩ := Option.map_eq_some_iff.mp hst
    exact Finding.fits_of_some rfl rfl
  · split
    · exact List.forall_mem_nil _
    · exact List.forall_mem_singleton.mpr (Finding.fits_of_some rfl rfl)

theorem fits_checkSource : ∀ f ∈ checkSource s a role, f.Fits := by
  rw [checkSource]
  split
  · split
    · exact List.forall_mem_singleton.mpr (Finding.fits_of_some rfl rfl)
    · exact List.forall_mem_nil _
  · refine List.forall_mem_append.mpr ⟨List.forall_mem_append.mpr ⟨?_, ?_⟩,
      List.forall_mem_map.mpr fun _ _ => Finding.fits_of_some rfl rfl⟩
    · split
      · exact List.forall_mem_nil _
      · exact List.forall_mem_singleton.mpr (Finding.fits_of_some rfl rfl)
    · split
      · exact List.forall_mem_singleton.mpr (Finding.fits_of_some rfl rfl)
      · exact List.forall_mem_nil _

theorem fits_checkScales : ∀ f ∈ checkScales a, f.Fits := by
  rw [checkScales]
  split
  · split
    · exact List.forall_mem_singleton.mpr (Finding.fits_of_some rfl rfl)
    · exact List.forall_mem_nil _
  · exact List.forall_mem_nil _

theorem fits_checkDeclaredBoxes {inherited : Crs → Option EffectiveBox} {seen : List Crs}
    {bs : List DeclaredBox} : ∀ f ∈ checkDeclaredBoxes inherited seen bs, f.Fits := by
  intro f hf
  obtain ⟨b, -, rfl | ⟨e, -, -, rfl⟩⟩ := cases_of_mem_checkDeclaredBoxes hf
  · exact Finding.fits_of_some rfl rfl
  · exact Finding.fits_of_some rfl rfl

theorem fits_checkPrimaryBox {effective : Option EffectiveBox} :
    ∀ f ∈ checkPrimaryBox s effective, f.Fits := by
  rw [checkPrimaryBox]
  split
  · exact List.forall_mem_nil _
  · split
    · exact List.forall_mem_nil _
    · exact List.forall_mem_singleton.mpr (Finding.fits_of_some rfl rfl)

theorem fits_checkSharedStyles {parent : Option Nat} {shared : List String} :
    ∀ f ∈ checkSharedStyles a parent shared, f.Fits := by
  rw [checkSharedStyles]
  split
  · exact List.forall_mem_map.mpr fun _ _ => Finding.fits_of_none rfl
  · exact List.forall_mem_nil _

end

namespace Hierarchy

variable {h : Hierarchy} {l : Layer} {primary : Crs} {s : Settings} {k : Nat} {f : Finding}
  {shared : List (Nat × List String)} {names : Holders}

/-- **What the check for a group finds fits.** -/
theorem fits_groupFindings : ∀ g, ∀ f ∈ h.groupFindings s shared names k g, f.Fits
  | .names => fits_checkName
  | .visibility => fits_checkVisibility
  | .styles => fits_checkStyles
  | .source => fits_checkSource
  | .scales => fits_checkScales
  | .boxes => List.forall_mem_append.mpr ⟨fits_checkDeclaredBoxes, fits_checkPrimaryBox⟩
  | .sharedStyles => fits_checkSharedStyles
  | .hierarchy => List.forall_mem_nil _

/-- A location makes no difference. -/
theorem fits_layerFindings : ∀ f ∈ h.layerFindings s shared names k, f.Fits := by
  rw [layerFindings_eq_groups]
  refine List.forall_mem_map.mpr fun f hf => ?_
  obtain ⟨g, -, hg⟩ := List.mem_flatMap.mp hf
  have hfits : f.Fits := fits_groupFindings g f hg
  exact hfits

/-- **Whatever the checks find fits.** -/
theorem fits_of_mem_findings (hf : f ∈ (ofLayer l primary).findings s) : f.Fits := by
  rcases exists_layerFindings_or hf with ⟨k, hk⟩ | hwhole
  · exact fits_layerFindings f hk
  · rw [(mem_checkAnyVisible_iff.mp hwhole).1]
    exact Finding.fits_of_none rfl

theorem fits_of_mem_check (hf : f ∈ ((ofLayer l primary).check s).all) : f.Fits :=
  fits_of_mem_findings (mem_all_check_iff.mp hf)

/-! ## Exported in full -/

/-- **Exported reports say everything**: two reports that are exported as one value are equal,
finding by finding and field by field. -/
theorem exportsInFull (l l' : Layer) (primary primary' : Crs) (s s' : Settings) :
    (ofLayer l primary).ExportsInFull (ofLayer l' primary') s s' where
  accepted := by
    obtain ⟨json, hjson⟩ := exists_exported l primary s
    obtain ⟨errors, warnings, herrors, -, rfl⟩ := Report.exists_items hjson
    exact ⟨_, errors, warnings, hjson, Report.isAccepted_iff_of_mapM herrors⟩
  readBack json h := Report.ofExported_exported (fun f hf => fits_of_mem_check hf) h
  report json h h' := by
    have hread : Report.ofExported json = some ((ofLayer l primary).check s) :=
      Report.ofExported_exported (fun f hf => fits_of_mem_check hf) h
    have hread' : Report.ofExported json = some ((ofLayer l' primary').check s') :=
      Report.ofExported_exported (fun f hf => fits_of_mem_check hf) h'
    exact Option.some.inj (hread.symm.trans hread')
  finding f hf g hg json h h' := by
    have hread := Finding.ofExported_exported (fits_of_mem_check hf) h
    have hread' := Finding.ofExported_exported (fits_of_mem_check hg) h'
    exact Option.some.inj (hread.symm.trans hread')

/-- Findings can be made up that share one object: on the title of a layer, and on that of a style
that is not given. -/
example (t : Arena) : ({ Finding.of .requiredWhenVisible with field := some .title }).exported t
    = ({ Finding.of .requiredWhenVisible with field := some .styleTitle }).exported t := rfl

end Hierarchy

end MapLayers
