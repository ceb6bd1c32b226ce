import MapLayers.Check
import MapLayers.Flat.Nesting
import MapLayers.Trace

/-!
# Evaluating a description

To evaluate a description is to nest its layers, to work out their hierarchy and to check it.  Only
nesting can fail, and only for a flat list; violations of rules are reported, however many there
are.

What is evaluated can be published when it is accepted: every consumer reads the hierarchy
(`Evaluation.publish`).

The events of an evaluation are those of its four stages (`Evaluation.events`).  An evaluation that
fails has the beginning and the end of the first stage for its events, with no layers in it
(`failureEvents`).
-/

set_option autoImplicit false

namespace MapLayers

/-- A hierarchy with the report on it. -/
structure Evaluation where
  hierarchy : Hierarchy
  report : Report
deriving DecidableEq, BEq, Repr, Inhabited

namespace Evaluation

/-- The evaluation of a nested description. -/
def ofLayer (settings : Settings) (layer : Layer) : Evaluation :=
  let h := Hierarchy.ofLayer layer settings.primary
  ⟨h, h.check settings⟩

/-- Whether no rule of severity error is violated. -/
def isAccepted (e : Evaluation) : Bool := e.report.isAccepted

/-- What each consumer makes of the hierarchy, if it is accepted. -/
def publish {α : Type} (e : Evaluation) (consumers : List (Hierarchy → α)) : Option (List α) :=
  if e.isAccepted then some (consumers.map fun consume => consume e.hierarchy) else none

/-- The events of an evaluation that did not fail. -/
def events (e : Evaluation) : List Event :=
  let n := e.hierarchy.size
  [.begins .build, .ends .build n, .begins .classify, .ends .classify n, .begins .resolve,
      .ends .resolve n, .summary e.hierarchy.summary, .begins .validate]
    ++ e.report.all.map .finding
    ++ [.ends .validate e.report.size]

end Evaluation

/-- The events of an evaluation that failed: the first stage dealt with nothing, and no other
began. -/
def failureEvents : List Event := [.begins .build, .ends .build 0]

/-- The evaluation of layers in either form.  The attributes are for a top layer that has to be made
up. -/
def LayerInput.evaluate (top : Option Attributes) (settings : Settings) (layers : LayerInput) :
    Except FlatError Evaluation :=
  (layers.nest top).map (Evaluation.ofLayer settings)

namespace Description

/-- The evaluation of a description. -/
def evaluate (d : Description) : Except FlatError Evaluation := d.layers.evaluate d.top d.settings

/-- The events of the evaluation of a description, in order. -/
def events (d : Description) : List Event :=
  match d.evaluate with
  | .ok e => e.events
  | .error _ => failureEvents

end Description

end MapLayers
