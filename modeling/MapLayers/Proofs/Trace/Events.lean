import MapLayers.Evaluation
import MapLayers.Proofs.Layout.Shape

/-!
# What a trace tells

The events of a description are known once it has been evaluated.  Whoever listens gets them one by
one, though, while the stages are still going on.  `LayerInput.evaluateInto` is an evaluation in
stages that hands each event to a sink when it happens; it comes to the same evaluation, and the
sink has then got the events of the description in their order (`LayerInput.evaluateInto_eq`).  A
sink is any function that takes an event in, so nothing can depend on what it does with them.

The events are true of the result (`LayerInput.tracesTruly`): of an evaluation that fails they tell
that the first stage came to nothing, and of any other the number of layers, the shape of the
description, and every finding of the report.

* Only flat lists fail, and they fail while they are nested (`LayerInput.exists_flat_of_error`).
* The number that comes with the end of the last stage is that of the findings among the events
  (`Evaluation.countP_isFinding_events`), which are the errors in their order and then the warnings.
* The summary is that of the hierarchy, and describes the nested form of the layers
  (`Hierarchy.describes_summary`).
-/

set_option autoImplicit false

namespace MapLayers

namespace Event

/-- A sink that takes in the findings of a list. -/
theorem foldl_finding {σ : Type} (sink : σ → Event → σ) (fs : List Finding) (s : σ) :
    fs.foldl (fun s f => sink s (.finding f)) s = (fs.map Event.finding).foldl sink s :=
  List.foldl_map.symm

end Event

namespace LayerInput

/-- The evaluation of layers in either form, stage by stage, with each event handed to a sink as it
happens. -/
def evaluateInto {σ : Type} (sink : σ → Event → σ) (top : Option Attributes) (settings : Settings)
    (layers : LayerInput) (s : σ) : Except FlatError Evaluation × σ :=
  let s := sink s (.begins .build)
  match layers.nest top with
  | .error error => (.error error, sink s (.ends .build 0))
  | .ok layer =>
    let t := Arena.ofLayer layer
    let s := sink s (.ends .build t.size)
    -- the roles show in the links, so there is nothing to be worked out at this stage
    let s := sink (sink s (.begins .classify)) (.ends .classify t.size)
    let s := sink s (.begins .resolve)
    let h := Hierarchy.ofArena t settings.primary
    let s := sink (sink s (.ends .resolve h.size)) (.summary h.summary)
    let s := sink s (.begins .validate)
    let report := h.check settings
    let s := report.all.foldl (fun s f => sink s (.finding f)) s
    (.ok ⟨h, report⟩, sink s (.ends .validate report.size))

/-- The events of layers in either form. -/
def events (top : Option Attributes) (settings : Settings) (layers : LayerInput) : List Event :=
  Description.events ⟨settings, top, layers⟩

/-- The events of an evaluation are true of what it comes to. -/
structure TracesTruly (layers : LayerInput) (top : Option Attributes) (settings : Settings) :
    Prop where
  /-- A sink gets the events in order, and makes no difference to the evaluation. -/
  told : ∀ (σ : Type) (sink : σ → Event → σ) (s : σ), layers.evaluateInto sink top settings s
    = (layers.evaluate top settings, (layers.events top settings).foldl sink s)
  /-- When an evaluation fails, which happens for flat lists only, there is nothing to tell but that
  it has been tried. -/
  failed : ∀ error, layers.evaluate top settings = .error error →
    (∃ entries, layers = .flat entries) ∧
      layers.events top settings = [.begins .build, .ends .build 0]
  /-- When it succeeds, the first three stages have dealt with every layer, and the last one with
  every finding: the errors in their order, then the warnings in theirs. -/
  succeeded : ∀ e, layers.evaluate top settings = .ok e →
    layers.events top settings
      = [.begins .build, .ends .build e.hierarchy.size, .begins .classify,
          .ends .classify e.hierarchy.size, .begins .resolve, .ends .resolve e.hierarchy.size,
          .summary e.hierarchy.summary, .begins .validate]
        ++ e.report.errors.map .finding ++ e.report.warnings.map .finding
        ++ [.ends .validate ((layers.events top settings).countP Event.isFinding)]
  /-- The summary is about the tree that was evaluated, and gives the shape of its description. -/
  summed : ∀ e, layers.evaluate top settings = .ok e →
    e.hierarchy.summary.layers = e.hierarchy.size ∧
      ∃ l, layers.nest top = .ok l ∧ e.hierarchy.summary.Describes l settings.primary

variable {top : Option Attributes} {settings : Settings} {layers : LayerInput} {error : FlatError}
  {e : Evaluation} {l : Layer}

/-! ## The two outcomes -/

theorem events_of_error (h : layers.evaluate top settings = .error error) :
    layers.events top settings = failureEvents := by
  have hevaluate : Description.evaluate ⟨settings, top, layers⟩ = .error error := h
  rw [events, Description.events, hevaluate]

theorem events_of_ok (h : layers.evaluate top settings = .ok e) :
    layers.events top settings = e.events := by
  have hevaluate : Description.evaluate ⟨settings, top, layers⟩ = .ok e := h
  rw [events, Description.events, hevaluate]

theorem evaluate_of_nest (h : layers.nest top = .ok l) :
    layers.evaluate top settings = .ok (.ofLayer settings l) := by
  rw [evaluate, h]
  rfl

theorem evaluate_of_nest_error (h : layers.nest top = .error error) :
    layers.evaluate top settings = .error error := by
  rw [evaluate, h]
  rfl

/-- Nested descriptions are evaluated in any case. -/
theorem exists_flat_of_error (h : layers.evaluate top settings = .error error) :
    ∃ entries, layers = .flat entries := by
  cases layers with
  | flat entries => exact ⟨entries, rfl⟩
  | nested layer => cases h

/-! ## Listening

The staged evaluation and the list of events take the same branches, so they are compared branch by
branch. -/

/-- **A sink gets the events of the description.** -/
theorem evaluateInto_eq {σ : Type} (sink : σ → Event → σ) (s : σ) :
    layers.evaluateInto sink top settings s
      = (layers.evaluate top settings, (layers.events top settings).foldl sink s) := by
  rw [evaluateInto]
  cases hnest : layers.nest top with
  | error error =>
    have hevaluate : layers.evaluate top settings = .error error := evaluate_of_nest_error hnest
    rw [hevaluate, events_of_error hevaluate]
    rfl
  | ok layer =>
    have hevaluate : layers.evaluate top settings = .ok (.ofLayer settings layer) :=
      evaluate_of_nest hnest
    rw [hevaluate, events_of_ok hevaluate, Evaluation.events, List.foldl_append,
      List.foldl_append]
    simp only [Event.foldl_finding]
    rfl

end LayerInput

/-- The findings among the events are those of the report. -/
theorem Evaluation.countP_isFinding_events (e : Evaluation) :
    e.events.countP Event.isFinding = e.report.size := by
  have hall : (e.report.all.map Event.finding).countP Event.isFinding = e.report.all.length := by
    rw [List.countP_map]
    exact List.countP_eq_length.mpr fun _ _ => rfl
  rw [events, List.countP_append, List.countP_append, hall, Report.all, List.length_append]
  simp [Event.isFinding, Report.size]

namespace LayerInput

/-- **The trace of an evaluation is true of its result.** -/
theorem tracesTruly (layers : LayerInput) (top : Option Attributes) (settings : Settings) :
    layers.TracesTruly top settings where
  told _ sink s := evaluateInto_eq sink s
  failed error h := ⟨exists_flat_of_error h, events_of_error h⟩
  succeeded e h := by
    rw [events_of_ok h, e.countP_isFinding_events, Evaluation.events, Report.all, List.map_append,
      ← List.append_assoc]
  summed e h := by
    refine ⟨rfl, ?_⟩
    cases hnest : layers.nest top with
    | error error =>
      rw [evaluate_of_nest_error hnest] at h
      cases h
    | ok l =>
      rw [evaluate_of_nest hnest] at h
      cases h
      exact ⟨l, rfl, Hierarchy.describes_summary l settings.primary⟩

end LayerInput

end MapLayers
