import MapLayers.Evaluation
import MapLayers.Proofs.Flat.Chains
import MapLayers.Proofs.Flat.Correspondence
import MapLayers.Proofs.Guarded.Outlines
import MapLayers.Proofs.Text.Lines
import MapLayers.Samples

/-!
# Evaluations, guarded

The guarded evaluation of a description nests its layers, lays them out, tells their roles, works
out their boxes, sums the hierarchy up and checks it, one guarded stage after the other.  As long as
there are fewer than `2 ^ 32 - 1` layers, which leaves room for a top layer that has to be made up
and for the word that stands for no layer, nothing stops it, and it comes to what the plain
evaluation gives.  The positions in the result are those of layers, so whoever reads it finds what
they look for: the report can be exported, and the views and the outline look nothing up in vain
(`LayerInput.runsGuarded`).

**One reader can break off all the same.**  The drawing of an outline ends without a text at the
first layer that would have to be indented by more than `maxIndent` spaces, that is, at one that
lies deeper than 32767.  It looks nothing up in vain even then, so no `Fault` shows it; it is the
`TooDeep` that the outline gives in place of a text, and `Evaluation.Readable.drawn` says just when
this is so.  Neither the evaluation nor any other reader has such a limit.

That the limit is in reach is the last part of this module.  A list of entries of which each names
the one before it as its parent is a chain of layers; it is evaluated, however long it is, and drawn
just when it is short enough (`LayerInput.evaluate_chain`).  With 32769 entries it is too long for
that, and far below the `2 ^ 32 - 1` layers that an evaluation has words for
(`LayerInput.not_drawn_deepEntries`).

The stages need no argument here, as each has its own module; `Entry.count_le_of_nest` is what is
left: the nested form of a list has one layer more than the list at most.
-/

set_option autoImplicit false

namespace MapLayers

open Guarded

/-- The hierarchy of the layers in an arena.  The roles are told by a pass of its own. -/
def Hierarchy.ofArenaGuarded (t : Arena) (primary : Crs) : Guarded Hierarchy := do
  let _ ← t.rolesGuarded
  return ⟨t, primary, t.referenced primary, ← t.boxesGuarded primary⟩

/-- The evaluation of a nested description, with the shape of the hierarchy in numbers. -/
def Evaluation.ofLayerGuarded (s : Settings) (layer : Layer) : Guarded (Evaluation × Summary) := do
  let h ← Hierarchy.ofArenaGuarded (← Arena.ofLayerGuarded layer) s.primary
  let summary ← h.summaryGuarded
  return (⟨h, ← h.checkGuarded s⟩, summary)

/-- Every reader of an evaluation finds the layers that it looks for.  One of them can break off all
the same: a tree with a layer that lies deeper than a line can be indented is not drawn. -/
structure Evaluation.Readable (e : Evaluation) : Prop where
  /-- The report can be exported. -/
  exported : ∃ json, e.report.exported e.hierarchy.toArena = .ok json
  /-- The outline looks nothing up in vain, whether it comes about or is broken off. -/
  outline : ∀ boxes, e.hierarchy.outlineGuarded boxes = .ok (e.hierarchy.outline boxes)
  /-- It comes about just when no layer lies deeper than a line can be indented. -/
  drawn : ∀ boxes, (∃ text, e.hierarchy.outline boxes = .ok text) ↔
    ∀ k < e.hierarchy.size, 2 * e.hierarchy.depth k ≤ maxIndent
  /-- No view looks anything up in vain. -/
  views : e.hierarchy.toArena.AnswersViews

namespace LayerInput

/-- The number of layers that are described. -/
def count : LayerInput → Nat
  | .flat entries => entries.length
  | .nested layer => layer.count

/-- The evaluation of layers in either form, with the shape of the hierarchy in numbers. -/
def evaluateGuarded (top : Option Attributes) (s : Settings) (layers : LayerInput) :
    Guarded (Except FlatError (Evaluation × Summary)) := do
  match ← layers.nestGuarded top with
  | .error error => return .error error
  | .ok layer => return .ok (← Evaluation.ofLayerGuarded s layer)

/-- Nothing stops the evaluation of layers, and what it gives can be read, but for the drawing of a
tree that is too deep. -/
structure RunsGuarded (layers : LayerInput) (top : Option Attributes) (s : Settings) : Prop where
  /-- No stage of the evaluation is stopped. -/
  evaluation : layers.evaluateGuarded top s
    = .ok ((layers.evaluate top s).map fun e => (e, e.hierarchy.summary))
  /-- The positions in the result are those of layers. -/
  anchored : ∀ e, layers.evaluate top s = .ok e → e.Anchored
  /-- They can be kept in words, and none is taken for the word that stands for no layer. -/
  words : ∀ e, layers.evaluate top s = .ok e → e.hierarchy.FitsWords
  /-- The result can be read, and drawn when it is not too deep. -/
  readable : ∀ e, layers.evaluate top s = .ok e → e.Readable

end LayerInput

/-! ## The number of layers

The words for positions are counted against the entries of a list, so it has to be known that
nesting does not make many layers of few entries.  The layers of a forest are its positions, and one
layer may be made up on top of them. -/

/-- Nesting adds one layer at most. -/
theorem Entry.count_le_of_nest {top : Option Attributes} {es : List Entry} {l : Layer}
    (h : nest top es = .ok l) : l.count ≤ es.length + 1 := by
  obtain ⟨-, parents, hparents, -, rfl⟩ := parents_of_nest h
  obtain ⟨ts, hts⟩ := exists_isForest parents
  have hlen := length_parents hparents
  have hle := hts.length_le
  rw [← hts.starts]
  by_cases hone : ts.length = 1
  · obtain ⟨t, rfl⟩ := List.length_eq_one_iff.mp hone
    rw [Sprout.positionsAll, Sprout.positionsAll, List.append_nil] at hle
    rw [List.map_singleton, gather_single hts hlen, Sprout.count_layer]
    omega
  · rw [gather_several hts hlen hone, Layer.count, ← Sprout.layers_eq_map, Sprout.countAll_layers]
    omega

theorem LayerInput.count_le_of_nest {top : Option Attributes} {layers : LayerInput} {l : Layer}
    (h : layers.nest top = .ok l) : l.count ≤ layers.count + 1 := by
  cases layers with
  | flat entries => exact Entry.count_le_of_nest h
  | nested layer =>
    cases h
    exact Nat.le_succ _

/-! ## The stages

Every stage has been shown to come to what the plain one gives, so here the runs only have to be
taken one after the other. -/

theorem Hierarchy.ofArenaGuarded_eq_ok (l : Layer) (primary : Crs) :
    ofArenaGuarded (.ofLayer l) primary = .ok (ofLayer l primary) := by
  rw [ofArenaGuarded, Arena.rolesGuarded_eq_ok, ok_bind, Arena.boxesGuarded_eq_ok]
  rfl

theorem Evaluation.ofLayerGuarded_eq_ok {l : Layer} (s : Settings) (h : l.count < 2 ^ 32) :
    ofLayerGuarded s l = .ok (ofLayer s l, (ofLayer s l).hierarchy.summary) := by
  rw [ofLayerGuarded, Arena.ofLayerGuarded_eq_ok h, ok_bind, Hierarchy.ofArenaGuarded_eq_ok,
    ok_bind, Hierarchy.summaryGuarded_eq_ok, ok_bind, Hierarchy.checkGuarded_eq_ok]
  rfl

theorem Evaluation.readable_ofLayer (s : Settings) (l : Layer) : (ofLayer s l).Readable where
  exported := exists_exported s l
  outline := Hierarchy.outlineGuarded_eq_ok l s.primary
  drawn _ := Hierarchy.exists_outline_iff
  views := Arena.answersViews_ofLayer l

namespace LayerInput

variable {top : Option Attributes} {s : Settings} {layers : LayerInput}

theorem exists_of_evaluate {e : Evaluation} (h : layers.evaluate top s = .ok e) :
    ∃ l, layers.nest top = .ok l ∧ e = .ofLayer s l := by
  rw [evaluate] at h
  cases hnest : layers.nest top with
  | error error =>
    rw [hnest] at h
    cases h
  | ok l =>
    rw [hnest] at h
    cases h
    exact ⟨l, rfl, rfl⟩

/-- **Nothing stops the evaluation** of a description of fewer than `2 ^ 32 - 1` layers, nor a look
at a layer when the result is read.  The drawing of an outline is the one thing that can be broken
off, by the depth of the tree. -/
theorem runsGuarded (layers : LayerInput) (top : Option Attributes) (s : Settings)
    (h : layers.count < 2 ^ 32 - 1) : layers.RunsGuarded top s where
  evaluation := by
    rw [evaluateGuarded, nestGuarded_eq_ok, ok_bind, evaluate]
    cases hnest : layers.nest top with
    | error error => rfl
    | ok l =>
      have hcount := count_le_of_nest hnest
      dsimp only
      rw [Evaluation.ofLayerGuarded_eq_ok s (by omega)]
      rfl
  anchored e he := by
    obtain ⟨l, -, rfl⟩ := exists_of_evaluate he
    exact Evaluation.anchored_ofLayer s l
  words e he := by
    obtain ⟨l, hnest, rfl⟩ := exists_of_evaluate he
    have hcount := count_le_of_nest hnest
    exact Arena.fitsWords (by omega)
  readable e he := by
    obtain ⟨l, -, rfl⟩ := exists_of_evaluate he
    exact Evaluation.readable_ofLayer s l

/-- The sample service is a flat list that needs a top layer to be made up. -/
theorem runsGuarded_serviceEntries :
    (LayerInput.flat Samples.serviceEntries).count < 2 ^ 32 - 1 ∧
      (LayerInput.flat Samples.serviceEntries).RunsGuarded (some Samples.serviceTop) {} :=
  have h : (LayerInput.flat Samples.serviceEntries).count < 2 ^ 32 - 1 := by decide
  ⟨h, runsGuarded (.flat Samples.serviceEntries) (some Samples.serviceTop) {} h⟩

/-! ## Too deep to be drawn

The one limit that remains, met by a description that the rest of the evaluation has no trouble
with.  The names have to differ for the list to be nested, and numbers do. -/

section

variable {a : Attributes} {as : List Attributes}

/-- **A chain of entries is evaluated, however long it is, but drawn only when it is short
enough.** -/
theorem evaluate_chain (top : Option Attributes) (s : Settings)
    (hnames : ((a :: as).map Attributes.name).Nodup) (hnamed : ∀ b ∈ a :: as, b.name ≠ none) :
    ∃ e, (LayerInput.flat (Entry.chain none (a :: as))).evaluate top s = .ok e ∧
      ∀ o : Outline, (∃ drawn, o.redraw e.hierarchy = .ok drawn) ↔
        2 * as.length ≤ maxIndent := by
  refine ⟨.ofLayer s (.chain a as), ?_, fun o => ?_⟩
  · rw [evaluate, nest, Entry.nest_chain top hnames hnamed]
    rfl
  · rw [Outline.exists_redraw_iff]
    exact Hierarchy.exists_outline_chain_iff a as

/-- Attributes that give a layer its number as a name. -/
def numbered (k : Nat) : Attributes := { name := some (toString k) }

/-- Different numbers are different names: a number is read off its digits. -/
theorem name_numbered_injective : Function.Injective fun k => (numbered k).name := by
  intro i j h
  have hdigits : Nat.toDigits 10 i = Nat.toDigits 10 j := by
    rw [← Nat.toList_repr, ← Nat.toList_repr]
    exact congrArg String.toList (Option.some.inj h)
  rw [← Nat.ofDigitChars_ten_toDigits (n := i), hdigits, Nat.ofDigitChars_ten_toDigits]

theorem nodup_numbered (n : Nat) :
    ((numbered 0 :: (List.range' 1 n).map numbered).map Attributes.name).Nodup := by
  have hcons : List.range' 0 (n + 1) = 0 :: List.range' 1 n := List.range'_succ
  rw [← List.map_cons, ← hcons, List.map_map]
  exact (List.nodup_range' 1).map name_numbered_injective

/-- A chain of 32769 entries, the names of which are their positions. -/
def deepEntries : List Entry :=
  Entry.chain none (numbered 0 :: (List.range' 1 32768).map numbered)

/-- **The chain cannot be drawn**, although it is evaluated, and far from as long as it may be for
that. -/
theorem not_drawn_deepEntries : (LayerInput.flat deepEntries).count < 2 ^ 32 - 1 ∧
    ∃ e, (LayerInput.flat deepEntries).evaluate none {} = .ok e ∧
      ∀ o drawn : Outline, o.redraw e.hierarchy ≠ .ok drawn := by
  have hnamed : ∀ b ∈ numbered 0 :: (List.range' 1 32768).map numbered, b.name ≠ none :=
    List.forall_mem_cons.mpr ⟨nofun, List.forall_mem_map.mpr fun _ _ => nofun⟩
  obtain ⟨e, he, hdrawn⟩ := evaluate_chain none {} (nodup_numbered 32768) hnamed
  rw [List.length_map, List.length_range'] at hdrawn
  refine ⟨?_, e, he, fun o drawn h => absurd ((hdrawn o).mp ⟨drawn, h⟩) (by decide)⟩
  rw [count, deepEntries, Entry.length_chain, List.length_cons, List.length_map, List.length_range']
  decide

end

end LayerInput

end MapLayers
