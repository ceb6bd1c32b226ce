import Mathlib.Tactic.ByContra
import MapLayers.Check

/-!
# Rules without errors

A list of findings is *harmless* when none of them is an error.  For each rule about one layer, a
lemma here says exactly when its findings are harmless, in terms of the attributes and the role that
the rule looks at.  The list of findings is not looked into again after that.

The lemmas are put together by `harmless_append`: findings are made check by check, and they are
harmless when those of each check are.  Where a finding is has no bearing on how much it matters
(`harmless_located`), and a report is without errors just when its findings are harmless
(`Report.errors_ofFindings_iff`).

Some checks can only make errors, so that for them to be harmless is to find nothing
(`harmless_map_error`); this is so of what is said about styles and sources, and of the check of
visible layers.  For the declared boxes it comes to having at most one for each system, as the other
thing that is said about them is a warning.
-/

set_option autoImplicit false

namespace MapLayers

/-- None of the findings is an error. -/
def Harmless (fs : List Finding) : Prop := ∀ f ∈ fs, f.severity = .warning

@[simp] theorem harmless_nil : Harmless [] := fun _ h => absurd h (by simp)

@[simp] theorem harmless_cons {f : Finding} {fs : List Finding} :
    Harmless (f :: fs) ↔ f.severity = .warning ∧ Harmless fs := List.forall_mem_cons

@[simp] theorem harmless_append {fs gs : List Finding} :
    Harmless (fs ++ gs) ↔ Harmless fs ∧ Harmless gs := List.forall_mem_append

/-- Where a finding is has no bearing on how much it matters. -/
@[simp] theorem harmless_located {fs : List Finding} {k : Nat} {name : Option String} :
    Harmless (fs.map (·.located k name)) ↔ Harmless fs := List.forall_mem_map

/-- Findings of one severity for the elements of a list. -/
theorem harmless_map {α : Type} {xs : List α} {f : α → Finding}
    (h : ∀ x, (f x).severity = .warning) : Harmless (xs.map f) :=
  List.forall_mem_map.mpr fun x _ => h x

theorem harmless_map_error {α : Type} {xs : List α} {f : α → Finding}
    (h : ∀ x, (f x).severity = .error) : Harmless (xs.map f) ↔ xs = [] := by
  cases xs with
  | nil => simp
  | cons x xs => simp [h x]

/-- **A report is without errors when its findings are harmless.** -/
theorem Report.errors_ofFindings_iff {fs : List Finding} :
    (Report.ofFindings fs).errors = [] ↔ Harmless fs := by
  rw [Report.ofFindings, List.filter_eq_nil_iff]
  refine forall₂_congr fun f _ => ?_
  cases f.severity <;> simp

/-! ## Rules about one layer

One lemma for each check, with the condition on attributes and role that makes its findings
harmless. -/

variable {a : Attributes} {role : Role}

theorem harmless_checkName {names : Holders} : Harmless (checkName names a role) ↔
    (role ≠ .top → a.properName ≠ none) ∧
      ∀ n, a.properName = some n → names.lookup n = none := by
  rw [checkName]
  cases hname : a.properName with
  | none => by_cases htop : role = .top <;> simp [htop, Finding.of, Rule.severity]
  | some n =>
    have hone : (∀ m, some n = some m → names.lookup m = none) ↔ names.lookup n = none :=
      ⟨fun h => h n rfl, fun h m hm => Option.some.inj hm ▸ h⟩
    rw [hone]
    dsimp only
    generalize names.lookup n = first
    cases first <;> simp [Finding.of, Rule.severity]

theorem harmless_checkHidden : Harmless (checkHidden a role) ↔ role = .data := by
  have hstyles : Harmless (a.styles.flatMap fun s =>
      ([(s.title.isSome, Field.styleTitle), (s.abstract.isSome, .styleAbstract)].filter
        (·.1)).map fun p =>
          { { Finding.of .unusedWhenHidden with field := some p.2 } with
              style := some s.name }) := by
    intro f hf
    obtain ⟨s, -, hs⟩ := List.mem_flatMap.mp hf
    exact harmless_map (fun _ => rfl) f hs
  simp only [checkHidden, harmless_append]
  refine ⟨?_, ?_⟩
  · rintro ⟨⟨hrole, -⟩, -⟩
    by_contra hne
    simp [hne, Finding.of, Rule.severity] at hrole
  · intro hrole
    refine ⟨⟨by simp [hrole], harmless_map fun _ => rfl⟩, hstyles⟩

theorem harmless_checkShown : Harmless (checkShown a) ↔
    (a.title ≠ none ∧ a.abstract ≠ none ∧ a.keywords ≠ none) ∧
      ∀ s ∈ a.styles, s.title ≠ none := by
  rw [checkShown, harmless_append, harmless_map_error fun _ => rfl, findingsFor,
    harmless_map_error fun _ => rfl]
  refine and_congr ?_ ?_
  · cases a.title <;> cases a.abstract <;> cases a.keywords <;> simp
  · rw [List.filter_eq_nil_iff]
    exact forall₂_congr fun s _ => by cases s.title <;> simp

theorem harmless_checkVisibility : Harmless (checkVisibility a role) ↔
    (a.isHidden = true → role = .data) ∧ (a.isHidden = false →
      (a.title ≠ none ∧ a.abstract ≠ none ∧ a.keywords ≠ none) ∧
        ∀ s ∈ a.styles, s.title ≠ none) := by
  rw [checkVisibility]
  cases a.isHidden <;> simp [harmless_checkHidden, harmless_checkShown]

theorem visualizationRule_eq_none {static : Bool} {s : Style} :
    visualizationRule static role s = none ↔
      (s.visualization ≠ none ↔ role = .data ∧ static = false) := by
  rw [visualizationRule]
  by_cases h : role = .data ∧ static = false <;> cases s.visualization <;> simp [h]

theorem severity_visualizationRule {static : Bool} {s : Style} {rule : Rule}
    (h : visualizationRule static role s = some rule) : rule.severity = .error := by
  rw [visualizationRule] at h
  split at h <;> split at h <;> first | (cases h; rfl) | exact absurd h (by simp)

/-- The findings about drawing instructions are all errors, so there are none when they are
harmless. -/
theorem harmless_visualizations {static : Bool} : Harmless (a.styles.filterMap fun s =>
      (visualizationRule static role s).map fun rule =>
        { Finding.of rule with style := some s.name, field := some .visualization }) ↔
    ∀ s ∈ a.styles, (s.visualization ≠ none ↔ role = .data ∧ static = false) := by
  refine ⟨?_, ?_⟩
  · intro h s hs
    rw [← visualizationRule_eq_none]
    cases hrule : visualizationRule static role s with
    | none => rfl
    | some rule =>
      have hf := h _ (List.mem_filterMap.mpr ⟨s, hs, by rw [hrule]; rfl⟩)
      simp [Finding.of, severity_visualizationRule hrule] at hf
  · intro h f hf
    obtain ⟨s, hs, hsf⟩ := List.mem_filterMap.mp hf
    rw [visualizationRule_eq_none.mpr (h s hs)] at hsf
    exact absurd hsf (by simp)

theorem harmless_checkStyles {settings : Settings} : Harmless (checkStyles settings a role) ↔
    (a.styles.map Style.name).Nodup ∧
      (settings.kind = .vectorOnly → a.styles = []) ∧
        (settings.kind ≠ .vectorOnly → ∀ s ∈ a.styles,
          (s.visualization ≠ none ↔ role = .data ∧ settings.staticDrawing = false)) := by
  rw [checkStyles, harmless_append, harmless_map_error fun _ => rfl, repeated_eq_nil_iff]
  refine and_congr (by simp) ?_
  cases hkind : settings.kind with
  | vectorOnly =>
    simp only [ServiceKind.publishesStyles]
    cases a.styles <;> simp [Finding.of, Rule.severity]
  | rasterCapable =>
    rw [ServiceKind.publishesStyles, if_pos rfl, harmless_visualizations]
    simp

theorem harmless_checkSource {settings : Settings} : Harmless (checkSource settings a role) ↔
    (a.source ≠ none ↔ role = .data) ∧ ∀ src, a.source = some src →
      (settings.kind = .vectorOnly → src.isRaster = false) ∧
        (src.columns.map Column.name).Nodup := by
  rw [checkSource]
  cases a.source with
  | none => by_cases h : role = .data <;> simp [h, Finding.of, Rule.severity]
  | some src =>
    have hrole : Harmless (if role = .data then []
        else [{ Finding.of .dataOnGroup with field := some .data }]) ↔ role = .data := by
      by_cases h : role = .data <;> simp [h, Finding.of, Rule.severity]
    have hraster : Harmless (if src.isRaster && !settings.kind.publishesRasters then
          [{ Finding.of .rasterUnsupported with
              field := some .data, detail := some settings.kind.label }]
        else []) ↔ (settings.kind = .vectorOnly → src.isRaster = false) := by
      cases src.isRaster <;> cases settings.kind <;>
        simp [ServiceKind.publishesRasters, Finding.of, Rule.severity]
    simp only [harmless_append, hrole, hraster]
    rw [harmless_map_error fun _ => rfl, repeated_eq_nil_iff]
    simp [and_assoc]

theorem harmless_checkScales : Harmless (checkScales a) ↔
    ∀ least greatest, a.minScale = some least → a.maxScale = some greatest →
      ¬ greatest ≤ least := by
  rw [checkScales]
  cases a.minScale with
  | none => simp
  | some least =>
    cases a.maxScale with
    | none => simp
    | some greatest =>
      by_cases h : greatest ≤ least <;> simp [h, Finding.of, Rule.severity]

theorem harmless_checkDeclaredBoxes {inherited : Crs → Option EffectiveBox} {seen : List Crs}
    {bs : List DeclaredBox} : Harmless (checkDeclaredBoxes inherited seen bs) ↔
      (bs.map DeclaredBox.crs).Nodup ∧ ∀ b ∈ bs, b.crs ∉ seen := by
  induction bs generalizing seen with
  | nil => simp [checkDeclaredBoxes]
  | cons b bs ih =>
    by_cases hseen : b.crs ∈ seen
    · simp [checkDeclaredBoxes, hseen, Finding.of, Rule.severity]
    · have hstep : Harmless (checkDeclaredBoxes inherited seen (b :: bs)) ↔
          Harmless (checkDeclaredBoxes inherited (b.crs :: seen) bs) := by
        rw [checkDeclaredBoxes, if_neg hseen]
        cases inherited b.crs with
        | none => exact Iff.rfl
        | some e => cases h : e.rect == b.rect <;> simp [h, Finding.of, Rule.severity]
      rw [hstep, ih, List.map_cons, List.nodup_cons, List.mem_map, List.forall_mem_cons]
      simp only [List.mem_cons, not_or, hseen, not_false_eq_true, true_and, not_exists, not_and]
      refine ⟨?_, ?_⟩
      · rintro ⟨hnd, hfresh⟩
        exact ⟨⟨fun c hc => (hfresh c hc).1, hnd⟩, fun c hc => (hfresh c hc).2⟩
      · rintro ⟨⟨hne, hnd⟩, hfresh⟩
        exact ⟨hnd, fun c hc => ⟨hne c hc, hfresh c hc⟩⟩

theorem harmless_checkPrimaryBox {settings : Settings} {effective : Option EffectiveBox} :
    Harmless (checkPrimaryBox settings effective) ↔
      settings.primary = .standard ∨ effective.map EffectiveBox.isExplicit = some true := by
  rw [checkPrimaryBox, Crs.isStandard]
  by_cases hp : settings.primary = .standard
  · simp [hp]
  · generalize effective.map EffectiveBox.isExplicit = explicit
    rcases explicit with _ | _ | _ <;> simp [hp, Finding.of, Rule.severity]

theorem harmless_checkSharedStyles {parent : Option Nat} {shared : List String} :
    Harmless (checkSharedStyles a parent shared) ↔ (a.isVisible = true → shared = []) := by
  rw [checkSharedStyles]
  cases a.isVisible
  · simp
  · simpa using harmless_map_error fun _ => rfl

end MapLayers
