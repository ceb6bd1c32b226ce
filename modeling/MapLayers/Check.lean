import MapLayers.Findings.Report
import MapLayers.NameTable
import MapLayers.Views.Selection

/-!
# Checking a hierarchy

`Hierarchy.check` goes through the layers in pre-order and collects every violation of a rule;
nothing stops it early.  For each layer the rules come in a fixed order: names, visibility, styles,
source, scales, boxes, styles shared with the parent.  The one rule about the hierarchy as a whole
comes last.

Only two things are carried from layer to layer: a table of the names met so far, with the first
holder of each (`Holders`), and the styles that layers share with their parents, which are worked
out beforehand.

Each group of rules is a function of what it looks at, and of nothing else: the attributes and the
role of the layer, the settings, and what has been looked up for it.  Such a function gives findings
without a location; `Hierarchy.layerFindings` makes the lookups, puts the findings of all groups one
after the other and locates them at the layer.

Names of styles and of columns that are said twice are found by `repeated`.  The boxes of a layer
are gone through once, for a second box as well as for one that repeats an inherited box
(`checkDeclaredBoxes`).

A check is a run in which each finding is pushed onto the report when it is made
(`Hierarchy.check_eq_foldl_push`).
-/

set_option autoImplicit false

namespace MapLayers

/-! ## Repetitions -/

/-- The elements of a list that occur before, in the list or among those seen already. -/
def repeated {α : Type} [DecidableEq α] (seen : List α) : List α → List α
  | [] => []
  | x :: xs => if x ∈ seen then x :: repeated seen xs else repeated (x :: seen) xs

/-- Nothing is repeated in a list without repetitions, all of it unseen. -/
theorem repeated_eq_nil_iff {α : Type} [DecidableEq α] {seen xs : List α} :
    repeated seen xs = [] ↔ xs.Nodup ∧ ∀ x ∈ xs, x ∉ seen := by
  induction xs generalizing seen with
  | nil => simp [repeated]
  | cons x xs ih =>
    by_cases h : x ∈ seen
    · simp [repeated, h]
    · simp only [repeated, h, if_false, ih, List.nodup_cons, List.mem_cons, not_or]
      constructor
      · rintro ⟨hnd, hfresh⟩
        refine ⟨⟨fun hx => (hfresh x hx).1 rfl, hnd⟩, ?_⟩
        rintro y (rfl | hy)
        · exact h
        · exact (hfresh y hy).2
      · rintro ⟨⟨hx, hnd⟩, hfresh⟩
        refine ⟨hnd, fun y hy => ⟨?_, hfresh y (Or.inr hy)⟩⟩
        rintro rfl
        exact hx hy

/-- One entry for everything in a list that is so. -/
def findingsFor {α : Type} (xs : List α) (p : α → Bool) (f : α → Finding) : List Finding :=
  (xs.filter p).map f

/-! ## The layers met so far -/

/-- The first holder of each name met so far. -/
abbrev Holders := NameTable Nat

/-- The name of a layer, if it has one that is not empty. -/
def Attributes.properName (a : Attributes) : Option String := a.name.filter (! ·.isEmpty)

/-- The first holders, after a layer. -/
def Holders.meet (names : Holders) (k : Nat) (a : Attributes) : Holders :=
  match a.properName with
  | none => names
  | some name => names.change name (·.getD k)

/-- The first holder of a name stays the first. -/
theorem Holders.lookup_meet (names : Holders) (k : Nat) (a : Attributes) (n : String) :
    (names.meet k a).lookup n
      = (names.lookup n).or (if a.properName = some n then some k else none) := by
  rw [meet]
  cases hname : a.properName with
  | none => simp
  | some m =>
    dsimp only
    rw [NameTable.lookup_change]
    by_cases hm : n = m
    · subst hm
      rw [if_pos rfl, if_pos rfl]
      cases names.lookup n <;> rfl
    · rw [if_neg hm, if_neg fun h => hm (Option.some.inj h).symm, Option.or_none]

/-! ## Rules about one layer

Each function has what it looks at for its arguments and gives findings without a location, in the
order in which they are made.  Rules that go by the role of a layer are given the role. -/

/-- The rules about names: every layer but the top has one, and no two layers the same. -/
def checkName (names : Holders) (a : Attributes) (role : Role) : List Finding :=
  match a.properName with
  | none =>
    if role = .top then [] else [{ Finding.of .missingName with field := some .name }]
  | some name =>
    match names.lookup name with
    | none => []
    | some first =>
      [{ Finding.of .duplicateName with field := some .name, related := some first }]

/-- What a hidden layer has in vain. -/
def checkHidden (a : Attributes) (role : Role) : List Finding :=
  let unused (field : Field) : Finding := { Finding.of .unusedWhenHidden with field := some field }
  (if role = .data then [] else [Finding.of .groupHidden])
    ++ ([(a.title.isSome, Field.title), (a.abstract.isSome, .abstract),
          (a.keywords.isSome, .keywords), (a.metadata.isSome, .datasetMetadataUrl)].filter
        (·.1)).map (fun (_, field) => unused field)
    ++ a.styles.flatMap fun s =>
        ([(s.title.isSome, Field.styleTitle), (s.abstract.isSome, .styleAbstract)].filter
          (·.1)).map fun (_, field) => { unused field with style := some s.name }

/-- What a visible layer lacks. -/
def checkShown (a : Attributes) : List Finding :=
  let required (field : Field) : Finding :=
    { Finding.of .requiredWhenVisible with field := some field }
  ([(a.title.isNone, Field.title), (a.abstract.isNone, .abstract),
      (a.keywords.isNone, .keywords)].filter (·.1)).map (fun (_, field) => required field)
    ++ findingsFor a.styles (·.title.isNone) fun s =>
        { required .styleTitle with style := some s.name }

/-- The rules about visibility. -/
def checkVisibility (a : Attributes) (role : Role) : List Finding :=
  if a.isHidden then checkHidden a role else checkShown a

/-- The rule about drawing instructions that a style violates, if any: the styles of data layers
need them, unless they are supplied ready made, and no others may have them. -/
def visualizationRule (staticDrawing : Bool) (role : Role) (s : Style) : Option Rule :=
  if role = .data ∧ staticDrawing = false then
    if s.visualization.isSome then none else some .visualizationRequired
  else if s.visualization.isSome then some .visualizationForbidden
  else none

/-- The rules about styles. -/
def checkStyles (settings : Settings) (a : Attributes) (role : Role) : List Finding :=
  ((repeated [] (a.styles.map Style.name)).map fun name =>
      { Finding.of .duplicateStyleName with style := some name, field := some .styles })
    ++ if settings.kind.publishesStyles then
        a.styles.filterMap fun s =>
          (visualizationRule settings.staticDrawing role s).map fun rule =>
            { Finding.of rule with style := some s.name, field := some .visualization }
      else if a.styles.isEmpty then []
      else
        [{ Finding.of .stylesUnsupported with
            field := some .styles, detail := some settings.kind.label }]

/-- The rules about the source: the data layers have one, and no others. -/
def checkSource (settings : Settings) (a : Attributes) (role : Role) : List Finding :=
  match a.source with
  | none =>
    if role = .data then [{ Finding.of .dataRequired with field := some .data }] else []
  | some source =>
    (if role = .data then [] else [{ Finding.of .dataOnGroup with field := some .data }])
      ++ (if source.isRaster && !settings.kind.publishesRasters then
            [{ Finding.of .rasterUnsupported with
                field := some .data, detail := some settings.kind.label }]
          else [])
      ++ (repeated [] (source.columns.map Column.name)).map fun name =>
          { Finding.of .duplicateColumn with field := some .columns, detail := some name }

/-- The rule about scales: when both are given, the least is below the greatest. -/
def checkScales (a : Attributes) : List Finding :=
  match a.minScale, a.maxScale with
  | some least, some greatest =>
    if greatest ≤ least then [{ Finding.of .scaleRange with field := some .scale }] else []
  | _, _ => []

/-- The ancestor that a box is inherited from. -/
def BoxOrigin.ancestor? : BoxOrigin → Option Nat
  | .inherited ancestor => some ancestor
  | _ => none

/-- The rules about the declared boxes, box by box: the first one for a system may not be the
inherited one, and there may not be a second. -/
def checkDeclaredBoxes (inherited : Crs → Option EffectiveBox) (seen : List Crs) :
    List DeclaredBox → List Finding
  | [] => []
  | b :: bs =>
    if b.crs ∈ seen then
      { Finding.of .duplicateBoundingBox with
          field := some .boundingBoxes, detail := some b.crs.id }
        :: checkDeclaredBoxes inherited seen bs
    else
      match inherited b.crs with
      | none => checkDeclaredBoxes inherited (b.crs :: seen) bs
      | some e =>
        if e.rect == b.rect then
          { Finding.of .redundantBoundingBox with
              field := some .boundingBoxes, related := e.origin.ancestor?,
              detail := some b.crs.id }
            :: checkDeclaredBoxes inherited (b.crs :: seen) bs
        else checkDeclaredBoxes inherited (b.crs :: seen) bs

/-- The rule about the primary system: a layer declares or inherits a box for it, unless it is the
standard system. -/
def checkPrimaryBox (settings : Settings) (effective : Option EffectiveBox) : List Finding :=
  if settings.primary.isStandard then []
  else if (effective.map EffectiveBox.isExplicit).getD false then []
  else
    [{ Finding.of .boundingBoxRequired with
        field := some .boundingBoxes, detail := some settings.primary.id }]

/-- The rule about the styles that a visible layer shares with its parent. -/
def checkSharedStyles (a : Attributes) (parent : Option Nat) (shared : List String) :
    List Finding :=
  if a.isVisible then
    shared.map fun name =>
      { Finding.of .styleNameCollision with style := some name, related := parent }
  else []

namespace Hierarchy

/-- The styles that layers share with their parents, where that is an error. -/
def forbiddenShared (h : Hierarchy) (settings : Settings) : List (Nat × List String) :=
  if settings.forbidsSharedStyles then h.styleCollisions else []

/-- What violates a rule at one layer, given the first holders of the names before it and the styles
that layers share with their parents. -/
def layerFindings (h : Hierarchy) (settings : Settings) (shared : List (Nat × List String))
    (names : Holders) (k : Nat) : List Finding :=
  let a := h.attributes k
  let role := h.role k
  (checkName names a role
    ++ checkVisibility a role
    ++ checkStyles settings a role
    ++ checkSource settings a role
    ++ checkScales a
    ++ checkDeclaredBoxes (h.inheritedBox k) [] a.boxes
    ++ checkPrimaryBox settings (h.effectiveBox k settings.primary)
    ++ checkSharedStyles a (h.parent k) ((shared.lookup k).getD [])).map
  (·.located k a.name)

/-- What violates a rule at some layers, visited in order. -/
def walkFindings (h : Hierarchy) (settings : Settings) (shared : List (Nat × List String)) :
    Holders → List Nat → List Finding
  | _, [] => []
  | names, k :: ks =>
    h.layerFindings settings shared names k
      ++ h.walkFindings settings shared (names.meet k (h.attributes k)) ks

/-- The rule about the hierarchy as a whole: some layer is visible. -/
def checkAnyVisible (h : Hierarchy) : List Finding :=
  if h.all.any fun k => (h.attributes k).isVisible then [] else [Finding.of .noVisibleLayer]

/-- Everything that violates a rule, in order. -/
def findings (h : Hierarchy) (settings : Settings) : List Finding :=
  h.walkFindings settings (h.forbiddenShared settings) .empty h.all ++ h.checkAnyVisible

/-- The report on a hierarchy. -/
def check (h : Hierarchy) (settings : Settings) : Report := .ofFindings (h.findings settings)

/-- A check is a run: it starts with an empty report and pushes each finding when it is made. -/
theorem check_eq_foldl_push (h : Hierarchy) (settings : Settings) :
    h.check settings = (h.findings settings).foldl Report.push {} := by
  have hempty : ({} : Report) = .ofFindings [] := rfl
  rw [check, hempty, Report.foldl_push_ofFindings, List.nil_append]

end Hierarchy

end MapLayers
