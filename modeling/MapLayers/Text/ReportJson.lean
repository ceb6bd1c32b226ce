import MapLayers.Evaluation
import MapLayers.Json.Fields
import MapLayers.Json.Printer
import MapLayers.Hierarchy.Access

/-!
# Exported reports

The report on a hierarchy as JSON for other programs: whether it is accepted, and the findings with
their codes and messages.  Members are in the order of their keys, and what is absent is left out.
A finding that involves a second layer also names it, if it has a name; the handle of that layer has
to belong to the hierarchy.

A handle that does not stops the export of the whole report (`Report.exported`).  This cannot happen
to the report that comes with a hierarchy, but a report may be exported with any.
-/

set_option autoImplicit false

namespace MapLayers

/-- The member that names the second layer of a finding. -/
def Finding.relatedName (t : Arena) (f : Finding) : Except ForeignHandle Fields :=
  match f.related with
  | none => .ok []
  | some k => (t.ask k t.name).map (Fields.ofOption "relatedName" .text)

/-- The members of an exported finding. -/
def Finding.exported (t : Arena) (f : Finding) : Except ForeignHandle Json := do
  let relatedName ← f.relatedName t
  return .record <| [("code", .text f.rule.code)]
    ++ Fields.ofOption "detail" .text f.detail
    ++ Fields.ofOption "field" (.text ·.label) f.field
    ++ Fields.ofOption "layer" .nat f.layer
    ++ Fields.ofOption "layerName" .text f.layerName
    ++ [("message", .text f.message)]
    ++ Fields.ofOption "related" .nat f.related
    ++ relatedName
    ++ [("rule", .text f.rule.key), ("severity", .text f.severity.label)]
    ++ Fields.ofOption "style" .text f.style

/-- The exported report on a hierarchy. -/
def Report.exported (t : Arena) (r : Report) : Except ForeignHandle Json := do
  let errors ← r.errors.mapM (Finding.exported t)
  let warnings ← r.warnings.mapM (Finding.exported t)
  return .record [("accepted", .bool r.isAccepted), ("errors", .array errors),
    ("warnings", .array warnings)]

/-- The text of the exported report of an evaluation. -/
def Evaluation.reportText (e : Evaluation) : Except ForeignHandle String :=
  (e.report.exported e.hierarchy.toArena).map Json.pretty

end MapLayers
