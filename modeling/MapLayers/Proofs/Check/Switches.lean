import MapLayers.Check

/-!
# What each setting bears on

The settings are read in four places of the check: where styles, sources, primary boxes and shared
styles are looked at.  Everything said there because of a setting is an error about one of the few
rules of that setting (`Switch.rules`).  So two reports on one hierarchy have the same warnings, and
once the rules of the settings that differ are left out, the same errors in the same order
(`Hierarchy.check_switched`).

A setting may bear on several rules, and a rule may belong to several settings.  Both are read off
one table, and `Settings.switched` collects the rules of all settings that are not the same in both.

The proof compares two checks piece by piece.  A piece that one setting decides makes errors about
rules of that setting and nothing else (`Switched`).  Either that setting is the same in both and so
is the piece, or its rules are left out and nothing of the piece is kept on either side
(`LeavesOut.filter_eq`).  The pieces are put together along the check of a layer and then along the
walk.
-/

set_option autoImplicit false

namespace MapLayers

/-- One of the settings. -/
inductive Switch where
  | primary
  | staticDrawing
  | rewritesGroups
  | comparesStyles
  | kind
deriving DecidableEq, Repr

namespace Switch

/-- All settings. -/
def all : List Switch := [.primary, .staticDrawing, .rewritesGroups, .comparesStyles, .kind]

/-- The rules that a setting bears on. -/
def rules : Switch → List Rule
  | .primary => [.boundingBoxRequired]
  | .staticDrawing => [.visualizationRequired, .visualizationForbidden]
  | .rewritesGroups => [.styleNameCollision]
  | .comparesStyles => [.styleNameCollision]
  | .kind =>
    [.stylesUnsupported, .rasterUnsupported, .visualizationRequired, .visualizationForbidden]

/-- A setting is the same in both. -/
def Same (s s' : Settings) : Switch → Prop
  | .primary => s'.primary = s.primary
  | .staticDrawing => s'.staticDrawing = s.staticDrawing
  | .rewritesGroups => s'.rewritesGroups = s.rewritesGroups
  | .comparesStyles => s'.comparesStyles = s.comparesStyles
  | .kind => s'.kind = s.kind

instance (s s' : Settings) : DecidablePred (Same s s')
  | .primary => inferInstanceAs (Decidable (s'.primary = s.primary))
  | .staticDrawing => inferInstanceAs (Decidable (s'.staticDrawing = s.staticDrawing))
  | .rewritesGroups => inferInstanceAs (Decidable (s'.rewritesGroups = s.rewritesGroups))
  | .comparesStyles => inferInstanceAs (Decidable (s'.comparesStyles = s.comparesStyles))
  | .kind => inferInstanceAs (Decidable (s'.kind = s.kind))

theorem mem_all : ∀ w : Switch, w ∈ all := by
  intro w
  cases w <;> decide

end Switch

/-- The rules of the settings that are not the same in both. -/
def Settings.switched (s s' : Settings) : List Rule :=
  (Switch.all.filter fun w => ¬ Switch.Same s s' w).flatMap Switch.rules

theorem Settings.mem_switched_iff {s s' : Settings} {r : Rule} :
    r ∈ s.switched s' ↔ ∃ w, ¬ Switch.Same s s' w ∧ r ∈ w.rules := by
  simp only [switched, List.mem_flatMap, List.mem_filter, Switch.mem_all, true_and,
    decide_eq_true_eq]

example : Settings.switched {} { primary := ⟨"EPSG:3857"⟩, rewritesGroups := true }
    = [.boundingBoxRequired, .styleNameCollision] := by decide

/-! ## Errors that a setting decides

The pieces of the check that read a setting, each with the setting whose rules it is about.  For the
pieces that read the kind of the service there are two: what is said about styles and what is said
about rasters. -/

/-- All findings are errors about rules of one setting. -/
def Switched (w : Switch) (fs : List Finding) : Prop :=
  ∀ f ∈ fs, f.rule ∈ w.rules ∧ f.severity = .error

theorem switched_nil {w : Switch} : Switched w [] := fun _ h => absurd h List.not_mem_nil

theorem switched_singleton {w : Switch} {f : Finding} (hrule : f.rule ∈ w.rules)
    (hseverity : f.severity = .error) : Switched w [f] := by
  intro g hg
  rw [List.mem_singleton.mp hg]
  exact ⟨hrule, hseverity⟩

/-- What is said about the drawing instructions of styles, and about styles as such. -/
def drawingFindings (s : Settings) (a : Attributes) (role : Role) : List Finding :=
  if s.kind.publishesStyles then
    a.styles.filterMap fun st =>
      (visualizationRule s.staticDrawing role st).map fun rule =>
        { Finding.of rule with style := some st.name, field := some .visualization }
  else if a.styles.isEmpty then []
  else
    [{ Finding.of .stylesUnsupported with
        field := some .styles, detail := some s.kind.label }]

/-- What is said about a raster source. -/
def rasterFindings (s : Settings) (source : Source) : List Finding :=
  if source.isRaster && !s.kind.publishesRasters then
    [{ Finding.of .rasterUnsupported with field := some .data, detail := some s.kind.label }]
  else []

section Findings

variable {s s' : Settings} {a : Attributes} {role : Role}

theorem rule_of_visualizationRule {static : Bool} {st : Style} {rule : Rule}
    (h : visualizationRule static role st = some rule) :
    rule = .visualizationRequired ∨ rule = .visualizationForbidden := by
  rw [visualizationRule] at h
  split at h <;> split at h
  · cases h
  · exact Or.inl (Option.some.inj h).symm
  · exact Or.inr (Option.some.inj h).symm
  · cases h

/-- Where styles are published, the only errors are about drawing instructions. -/
theorem switched_visualizations {w : Switch} (hrequired : .visualizationRequired ∈ w.rules)
    (hforbidden : .visualizationForbidden ∈ w.rules) (h : s.kind.publishesStyles = true) :
    Switched w (drawingFindings s a role) := by
  rw [drawingFindings, if_pos h]
  intro f hf
  obtain ⟨st, -, hst⟩ := List.mem_filterMap.mp hf
  obtain ⟨rule, hrule, rfl⟩ := Option.map_eq_some_iff.mp hst
  rcases rule_of_visualizationRule hrule with rfl | rfl
  · exact ⟨hrequired, rfl⟩
  · exact ⟨hforbidden, rfl⟩

theorem switched_drawingFindings : Switched .kind (drawingFindings s a role) := by
  by_cases h : s.kind.publishesStyles = true
  · exact switched_visualizations (by decide) (by decide) h
  · rw [drawingFindings, if_neg h]
    split
    · exact switched_nil
    · exact switched_singleton (by simp [Finding.of, Switch.rules]) rfl

theorem switched_rasterFindings {source : Source} : Switched .kind (rasterFindings s source) := by
  rw [rasterFindings]
  split
  · exact switched_singleton (by simp [Finding.of, Switch.rules]) rfl
  · exact switched_nil

theorem switched_checkPrimaryBox {effective : Option EffectiveBox} :
    Switched .primary (checkPrimaryBox s effective) := by
  rw [checkPrimaryBox]
  split
  · exact switched_nil
  · split
    · exact switched_nil
    · exact switched_singleton (by simp [Finding.of, Switch.rules]) rfl

theorem switched_checkSharedStyles {w : Switch} (h : .styleNameCollision ∈ w.rules)
    {parent : Option Nat} {shared : List String} :
    Switched w (checkSharedStyles a parent shared) := by
  rw [checkSharedStyles]
  split
  · intro f hf
    obtain ⟨name, -, rfl⟩ := List.mem_map.mp hf
    exact ⟨h, rfl⟩
  · exact switched_nil

end Findings

/-! ## Leaving them out

When a setting is the same in both, so is the piece; when it is not, nothing of the piece is kept.
One lemma says this, and each piece is a case of it. -/

/-- Of the errors about rules of settings that differ, nothing is kept. -/
def LeavesOut (s s' : Settings) (keep : Finding → Bool) : Prop :=
  ∀ w f, ¬ Switch.Same s s' w → f.rule ∈ w.rules → f.severity = .error → keep f = false

variable {s s' : Settings} {keep : Finding → Bool} {a : Attributes} {role : Role}

/-- Where a finding is located has no bearing on its rule and severity. -/
theorem LeavesOut.located (h : LeavesOut s s' keep) (k : Nat) (name : Option String) :
    LeavesOut s s' fun f => keep (f.located k name) :=
  fun w f hw hrule hseverity => h w (f.located k name) hw hrule hseverity

section

variable (h : LeavesOut s s' keep)

include h

theorem LeavesOut.filter_eq_nil {w : Switch} {fs : List Finding}
    (hw : ¬ Switch.Same s s' w) (hfs : Switched w fs) : fs.filter keep = [] :=
  List.filter_eq_nil_iff.mpr fun f hf => by
    rw [h w f hw (hfs f hf).1 (hfs f hf).2]
    exact Bool.false_ne_true

/-- **What one setting decides is left out, or the setting is the same in both.** -/
theorem LeavesOut.filter_eq (w : Switch) {fs gs : List Finding} (hfs : Switched w fs)
    (hgs : Switched w gs) (hsame : Switch.Same s s' w → gs.filter keep = fs.filter keep) :
    gs.filter keep = fs.filter keep := by
  by_cases hw : Switch.Same s s' w
  · exact hsame hw
  · rw [h.filter_eq_nil hw hfs, h.filter_eq_nil hw hgs]

theorem filter_drawingFindings : (drawingFindings s' a role).filter keep
    = (drawingFindings s a role).filter keep := by
  refine h.filter_eq .kind switched_drawingFindings switched_drawingFindings fun hkind => ?_
  have hkind : s'.kind = s.kind := hkind
  by_cases hpublishes : s.kind.publishesStyles = true
  · have hpublishes' : s'.kind.publishesStyles = true := by rw [hkind, hpublishes]
    refine h.filter_eq .staticDrawing
      (switched_visualizations (by decide) (by decide) hpublishes)
      (switched_visualizations (by decide) (by decide) hpublishes') fun hstatic => ?_
    have hstatic : s'.staticDrawing = s.staticDrawing := hstatic
    rw [drawingFindings, drawingFindings, hkind, hstatic]
  · -- without styles it makes no difference how they would be drawn
    rw [drawingFindings, drawingFindings, hkind, if_neg hpublishes, if_neg hpublishes]

theorem filter_checkStyles :
    (checkStyles s' a role).filter keep = (checkStyles s a role).filter keep := by
  have hsplit (s : Settings) : checkStyles s a role
      = ((repeated [] (a.styles.map Style.name)).map fun name =>
          { Finding.of .duplicateStyleName with style := some name, field := some .styles })
        ++ drawingFindings s a role := rfl
  rw [hsplit, hsplit, List.filter_append, List.filter_append, filter_drawingFindings h]

theorem filter_rasterFindings (source : Source) :
    (rasterFindings s' source).filter keep = (rasterFindings s source).filter keep := by
  refine h.filter_eq .kind switched_rasterFindings switched_rasterFindings fun hkind => ?_
  have hkind : s'.kind = s.kind := hkind
  rw [rasterFindings, rasterFindings, hkind]

theorem filter_checkSource :
    (checkSource s' a role).filter keep = (checkSource s a role).filter keep := by
  rw [checkSource, checkSource]
  cases a.source with
  | none => rfl
  | some source =>
    have hraster := filter_rasterFindings h source
    simp only [rasterFindings] at hraster
    simp only [List.filter_append, hraster]

/-- Where the primary system is not the same, nothing is kept of what is said about it. -/
theorem filter_checkPrimaryBox (effective : Crs → Option EffectiveBox) :
    (checkPrimaryBox s' (effective s'.primary)).filter keep
      = (checkPrimaryBox s (effective s.primary)).filter keep := by
  refine h.filter_eq .primary switched_checkPrimaryBox switched_checkPrimaryBox fun hprimary => ?_
  have hprimary : s'.primary = s.primary := hprimary
  rw [checkPrimaryBox, checkPrimaryBox, hprimary]

theorem filter_checkSharedStyles (t : Hierarchy) (k : Nat) :
    (checkSharedStyles a (t.parent k) (((t.forbiddenShared s').lookup k).getD [])).filter keep
      = (checkSharedStyles a (t.parent k)
        (((t.forbiddenShared s).lookup k).getD [])).filter keep := by
  refine h.filter_eq .rewritesGroups (switched_checkSharedStyles (by decide))
    (switched_checkSharedStyles (by decide)) fun hrewrites => ?_
  refine h.filter_eq .comparesStyles (switched_checkSharedStyles (by decide))
    (switched_checkSharedStyles (by decide)) fun hcompares => ?_
  have hrewrites : s'.rewritesGroups = s.rewritesGroups := hrewrites
  have hcompares : s'.comparesStyles = s.comparesStyles := hcompares
  have hforbids : s'.forbidsSharedStyles = s.forbidsSharedStyles := by
    rw [Settings.forbidsSharedStyles, Settings.forbidsSharedStyles, hrewrites, hcompares]
  rw [Hierarchy.forbiddenShared, Hierarchy.forbiddenShared, hforbids]

end

/-! ## The walk -/

namespace Hierarchy

variable (t : Hierarchy)

theorem filter_layerFindings (h : LeavesOut s s' keep) (names : Holders) (k : Nat) :
    (t.layerFindings s' (t.forbiddenShared s') names k).filter keep
      = (t.layerFindings s (t.forbiddenShared s) names k).filter keep := by
  have hlocated := h.located k (t.attributes k).name
  rw [layerFindings, layerFindings, List.filter_map, List.filter_map]
  congr 1
  change List.filter (fun f : Finding => keep (f.located k (t.attributes k).name)) _
    = List.filter (fun f : Finding => keep (f.located k (t.attributes k).name)) _
  simp only [List.filter_append]
  rw [filter_checkStyles hlocated, filter_checkSource hlocated,
    filter_checkPrimaryBox hlocated (t.effectiveBox k), filter_checkSharedStyles hlocated]

theorem filter_walkFindings (h : LeavesOut s s' keep) : ∀ (ks : List Nat) (names : Holders),
    (t.walkFindings s' (t.forbiddenShared s') names ks).filter keep
      = (t.walkFindings s (t.forbiddenShared s) names ks).filter keep
  | [], _ => rfl
  | k :: ks, names => by
    rw [walkFindings, walkFindings, List.filter_append, List.filter_append,
      filter_layerFindings t h, filter_walkFindings h ks]

theorem filter_findings (h : LeavesOut s s' keep) :
    (t.findings s').filter keep = (t.findings s).filter keep := by
  rw [findings, findings, List.filter_append, List.filter_append, filter_walkFindings t h]

/-- **Each setting bears on its own rules only.**  Whatever the settings, the warnings are the same,
and so are the errors about rules of settings that are the same, in the same order. -/
theorem check_switched (s s' : Settings) : (t.check s').warnings = (t.check s).warnings ∧
    (t.check s').errors.filter (·.rule ∉ s.switched s')
      = (t.check s).errors.filter (·.rule ∉ s.switched s') := by
  refine ⟨?_, ?_⟩
  · refine filter_findings t fun w f _ _ hseverity => ?_
    rw [hseverity]
    rfl
  · rw [check, check, Report.ofFindings, Report.ofFindings, List.filter_filter, List.filter_filter]
    refine filter_findings t fun w f hw hrule _ => ?_
    have hmem : f.rule ∈ s.switched s' := Settings.mem_switched_iff.mpr ⟨w, hw, hrule⟩
    simp [hmem]

end Hierarchy

end MapLayers
