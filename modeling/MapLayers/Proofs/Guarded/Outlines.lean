import MapLayers.Proofs.Check.Related
import MapLayers.Proofs.Guarded.Checking
import MapLayers.Text.Outline

/-!
# Outlines, guarded

The outline of a hierarchy looks at every layer, at its boxes, and at the ancestors that these are
inherited from.  All of them are there: the walk gives layers only, and a box is inherited from a
layer that comes before (`Hierarchy.boxLabelGuarded_eq_ok`).

The rows are drawn one by one until a layer lies too deep, and a plain outline, for which all layers
are looked at before the first row is drawn, comes to the same (`Hierarchy.outlineLines_cons`).

There are two ways for an outline to end before its time, and the guarded run tells them apart by
its type.  A `Fault` would be a look at a layer that is not there; there is none
(`Hierarchy.outlineGuarded_eq_ok`).  A `TooDeep` is an indentation that is wider than a line can
have.  This is found out from the depth of a layer that is there, and it does happen: a tree with a
layer that lies deeper than 32767 has no outline, and whoever asks for one gets nothing.  How deep a
tree may be is said beside the outlines themselves, by `Hierarchy.exists_outline_iff`.
-/

set_option autoImplicit false

namespace MapLayers

open Guarded

namespace Hierarchy

/-- How an outline refers to a layer. -/
def displayNameGuarded (h : Hierarchy) (k : Nat) : Guarded String :=
  return (← h.look k Node.attributes).name.getD "(unnamed)"

/-- An effective box with its origin. -/
def boxLabelGuarded (h : Hierarchy) (e : Crs × EffectiveBox) : Guarded String :=
  match e.2.origin with
  | .declared => .ok e.1.id
  | .inherited ancestor => return e.1.id ++ "<-" ++ (← h.displayNameGuarded ancestor)
  | .standard => .ok (e.1.id ++ "*")

/-- What the outline says about a layer after its indentation. -/
def outlineEntryGuarded (h : Hierarchy) (boxes : Bool) (k : Nat) : Guarded String := do
  let a ← h.look k Node.attributes
  let role ← h.look k Node.role
  let name ← h.displayNameGuarded k
  let labels ← (← h.boxTableGuarded k).mapM h.boxLabelGuarded
  return name ++ " [" ++ role.label ++ "]"
    ++ (if a.isHidden then " hidden" else "")
    ++ listing " styles=" (a.styles.map Style.name)
    ++ ((a.source.map fun s => " data=" ++ s.label).getD "")
    ++ (if boxes then listing " bbox=" labels else "")

/-- The row of a layer with a line feed behind it, unless the layer lies too deep. -/
def outlineLineGuarded (h : Hierarchy) (boxes : Bool) (k : Nat) :
    Guarded (Except TooDeep String) := do
  let indent := 2 * (← h.depthGuarded k)
  let entry ← h.outlineEntryGuarded boxes k
  return if maxIndent < indent then .error ⟨k⟩ else .ok ("".pushn ' ' indent ++ entry ++ "\n")

/-- The rows of some layers, one by one, until one of the layers lies too deep. -/
def outlineLinesGuarded (h : Hierarchy) (boxes : Bool) :
    List Nat → Guarded (Except TooDeep (List String))
  | [] => .ok (.ok [])
  | k :: ks => do
    match ← h.outlineLineGuarded boxes k with
    | .error tooDeep => return .error tooDeep
    | .ok line => return (← h.outlineLinesGuarded boxes ks).map (line :: ·)

/-- The outline of a hierarchy. -/
def outlineGuarded (h : Hierarchy) (boxes : Bool) : Guarded (Except TooDeep String) := do
  return (← h.outlineLinesGuarded boxes (← h.allGuarded)).map String.join

variable {l : Layer} {primary : Crs} {boxes : Bool} {k : Nat}

theorem displayNameGuarded_eq_ok (h : k < (ofLayer l primary).size) :
    (ofLayer l primary).displayNameGuarded k = .ok ((ofLayer l primary).displayName k) := by
  rw [displayNameGuarded, Arena.look_attributes h]
  rfl

/-- The ancestor that a box is inherited from is there. -/
theorem boxLabelGuarded_eq_ok {e : Crs × EffectiveBox} (h : k < (ofLayer l primary).size)
    (he : e ∈ (ofLayer l primary).boxTable k) :
    (ofLayer l primary).boxLabelGuarded e = .ok ((ofLayer l primary).boxLabel e.1 e.2) := by
  obtain ⟨c, rect, origin⟩ := e
  cases origin with
  | declared => rfl
  | standard => rfl
  | inherited a =>
    have hlt : a < k := (above_of_mem_boxTable h he).1.lt fun _ _ => parent_lt
    rw [boxLabelGuarded, boxLabel]
    dsimp only
    rw [displayNameGuarded_eq_ok (Nat.lt_trans hlt h)]
    rfl

theorem outlineEntryGuarded_eq_ok (h : k < (ofLayer l primary).size) :
    (ofLayer l primary).outlineEntryGuarded boxes k
      = .ok ((ofLayer l primary).outlineEntry boxes k) := by
  rw [outlineEntryGuarded, Arena.look_attributes h, ok_bind, Arena.look_role h, ok_bind,
    displayNameGuarded_eq_ok h, ok_bind, boxTableGuarded_eq_ok h, ok_bind,
    mapM_eq_ok fun e he => boxLabelGuarded_eq_ok h he]
  rfl

theorem outlineLineGuarded_eq_ok (h : k < (ofLayer l primary).size) :
    (ofLayer l primary).outlineLineGuarded boxes k
      = .ok (if (ofLayer l primary).isTooDeep k then .error ⟨k⟩
          else .ok ((ofLayer l primary).outlineRow boxes k ++ "\n")) := by
  rw [outlineLineGuarded, depthGuarded_eq_ok h, ok_bind, outlineEntryGuarded_eq_ok h, isTooDeep]
  simp only [decide_eq_true_eq]
  rfl

theorem outlineLinesGuarded_eq_ok : ∀ {ks : List Nat}, (∀ k ∈ ks, k < (ofLayer l primary).size) →
    (ofLayer l primary).outlineLinesGuarded boxes ks
      = .ok ((ofLayer l primary).outlineLines boxes ks)
  | [], _ => rfl
  | k :: ks, h => by
    rw [List.forall_mem_cons] at h
    rw [outlineLinesGuarded, outlineLines_cons, outlineLineGuarded_eq_ok h.1, ok_bind]
    cases (ofLayer l primary).isTooDeep k with
    | true => rfl
    | false =>
      rw [if_neg Bool.false_ne_true, if_neg Bool.false_ne_true, outlineLinesGuarded_eq_ok h.2]
      rfl

/-- **Nothing is looked up in vain for an outline.** -/
theorem outlineGuarded_eq_ok (l : Layer) (primary : Crs) (boxes : Bool) :
    (ofLayer l primary).outlineGuarded boxes = .ok ((ofLayer l primary).outline boxes) := by
  rw [outlineGuarded, allGuarded_eq_ok, ok_bind, outlineLinesGuarded_eq_ok fun k => mem_all_iff.mp]
  rfl

end Hierarchy

end MapLayers
