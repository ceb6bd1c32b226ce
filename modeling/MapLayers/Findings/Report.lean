import MapLayers.Findings.Rule
import MapLayers.Json

/-!
# Findings and reports

A `Finding` is one violation of a rule.  It has no more location than it needs: a layer, a style of
that layer, a field, a second layer that is involved, and the coordinate system, column or kind of
service that it is about.  A `Report` keeps the findings of a hierarchy in the order in which they
were made, errors apart from warnings; a hierarchy without errors is accepted.

A report is filled finding by finding (`Report.push`), and comes to the same as picking out the
errors and the warnings of all findings, each in order (`Report.foldl_push_ofFindings`).  The second
form, `Report.ofFindings`, is the one that is reasoned about.

In words, a finding gives its severity and the code of its rule, then where it is, and then what is
wrong (`Finding.display`).  The names in it stand as they are, so nothing is to be read off the
words that is not in the finding itself, which `Finding.toJson` writes with all its parts.
-/

set_option autoImplicit false

namespace MapLayers

/-- One violation of a rule. -/
structure Finding where
  /-- How much it matters. -/
  severity : Severity
  /-- The rule that is violated. -/
  rule : Rule
  /-- The position of the layer at fault; none when the whole hierarchy is. -/
  layer : Option Nat := none
  /-- The name of the layer at fault. -/
  layerName : Option String := none
  /-- The name of the style at fault. -/
  style : Option String := none
  /-- The field at fault. -/
  field : Option Field := none
  /-- The position of a second layer: the first one of the name, the parent that has the style, or
  the ancestor that declares the box. -/
  related : Option Nat := none
  /-- The coordinate system, column or kind of service that it is about. -/
  detail : Option String := none
deriving DecidableEq, Repr, Inhabited

namespace Finding

/-- A violation of a rule, of the severity of the rule, without any location. -/
def of (rule : Rule) : Finding := { severity := rule.severity, rule }

/-- The finding, located at a layer. -/
def located (f : Finding) (layer : Nat) (name : Option String) : Finding :=
  { f with layer := some layer, layerName := name }

/-! ## In words -/

/-- A text between backticks. -/
def ticked (s : String) : String := "\x60" ++ s ++ "\x60"

/-- What is wrong, without where. -/
def message (f : Finding) : String :=
  let style := ticked (f.style.getD "")
  let detail := f.detail.getD ""
  let field := (f.field.map Field.label).getD ""
  match f.rule with
  | .duplicateName => "layer name must be unique"
  | .missingName => "layer must have a name"
  | .requiredWhenVisible =>
    if f.style.isSome then
      "style " ++ style ++ " must have a " ++ field ++ " when the layer is visible"
    else field ++ " is required when the layer is visible"
  | .unusedWhenHidden =>
    if f.style.isSome then
      field ++ " of style " ++ style ++ " is unused because the layer is not visible"
    else field ++ " is unused because the layer is not visible"
  | .groupHidden => "group layers must be visible"
  | .duplicateStyleName => "style name " ++ style ++ " is used more than once"
  | .stylesUnsupported => "this service kind does not publish styles"
  | .visualizationRequired => "style " ++ style ++ " of a data layer must set a visualization"
  | .visualizationForbidden => "style " ++ style ++ " must not set a visualization here"
  | .dataOnGroup => "group layers must not have a data binding"
  | .dataRequired => "data layers must have a data binding"
  | .rasterUnsupported => "this service kind does not publish raster data"
  | .duplicateColumn => "column " ++ ticked detail ++ " is listed more than once"
  | .scaleRange => "minScale must be smaller than maxScale"
  | .duplicateBoundingBox => "more than one bounding box declared for " ++ detail
  | .boundingBoxRequired => "no declared or inherited bounding box for " ++ detail
  | .redundantBoundingBox => "bounding box for " ++ detail ++ " equals the inherited one"
  | .styleNameCollision =>
    "style name " ++ style ++ " from parent layer must not be set on a child layer"
  | .noVisibleLayer => "at least one layer must be visible"

/-- Where it is wrong: by the name of the layer, or by its position when it has none. -/
def location (f : Finding) : String :=
  match f.layer, f.layerName with
  | _, some name => " layer " ++ ticked name
  | some k, none => " layer #" ++ toString k
  | none, none => ""

/-- The finding in words.  It is one line unless the name of the layer, the name of the style or the
detail has a line feed in it, since these stand as they are. -/
def display (f : Finding) : String :=
  f.severity.label ++ "[" ++ f.rule.code ++ "]" ++ f.location ++ ": " ++ f.message

/-! ## As JSON -/

/-- An optional value, `null` when it is absent. -/
def orNull {α : Type} (write : α → Json) : Option α → Json
  | none => .null
  | some x => write x

/-- The finding with every member, `null` where there is nothing. -/
def toJson (f : Finding) : Json :=
  .record [("severity", .text f.severity.label), ("rule", .text f.rule.key),
    ("layer", orNull .nat f.layer), ("layerName", orNull .text f.layerName),
    ("style", orNull .text f.style), ("field", orNull (.text ·.key) f.field),
    ("related", orNull .nat f.related), ("detail", orNull .text f.detail)]

end Finding

/-- The findings of a hierarchy. -/
structure Report where
  /-- The errors, in order. -/
  errors : List Finding := []
  /-- The warnings, in order. -/
  warnings : List Finding := []
deriving DecidableEq, Repr, Inhabited

namespace Report

/-- The report with one more finding, after the others of its severity. -/
def push (r : Report) (f : Finding) : Report :=
  match f.severity with
  | .error => { r with errors := r.errors ++ [f] }
  | .warning => { r with warnings := r.warnings ++ [f] }

/-- The report of some findings: those of each severity, in order. -/
def ofFindings (fs : List Finding) : Report where
  errors := fs.filter (·.severity == .error)
  warnings := fs.filter (·.severity == .warning)

/-- Whether there are no errors. -/
def isAccepted (r : Report) : Bool := r.errors.isEmpty

/-- Whether there are no findings. -/
def isEmpty (r : Report) : Bool := r.errors.isEmpty && r.warnings.isEmpty

/-- The number of findings. -/
def size (r : Report) : Nat := r.errors.length + r.warnings.length

/-- All findings, the errors first. -/
def all (r : Report) : List Finding := r.errors ++ r.warnings

/-- The findings of a rule. -/
def ofRule (r : Report) (rule : Rule) : List Finding := r.all.filter (·.rule == rule)

/-- The findings about a layer. -/
def ofLayer (r : Report) (k : Nat) : List Finding := r.all.filter (·.layer == some k)

/-- The report with every finding in full. -/
def toJson (r : Report) : Json :=
  .record [("errors", .array (r.errors.map Finding.toJson)),
    ("warnings", .array (r.warnings.map Finding.toJson))]

/-- Reporting one finding more is pushing it. -/
theorem ofFindings_concat (fs : List Finding) (f : Finding) :
    ofFindings (fs ++ [f]) = (ofFindings fs).push f := by
  cases h : f.severity <;> simp [ofFindings, push, h]

theorem foldl_push_ofFindings (fs gs : List Finding) :
    fs.foldl push (ofFindings gs) = ofFindings (gs ++ fs) := by
  induction fs generalizing gs with
  | nil => rw [List.foldl_nil, List.append_nil]
  | cons f fs ih =>
    rw [List.foldl_cons, ← ofFindings_concat, ih, List.append_assoc, List.singleton_append]

end Report

end MapLayers
