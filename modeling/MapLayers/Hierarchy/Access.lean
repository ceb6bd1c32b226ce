import MapLayers.Hierarchy.Basic

/-!
# Access by handle

Positions also serve as handles outside the arena that they belong to, so a position may come from
another tree.  `Arena.ask` refuses one that this arena does not have, and answers any other question
by means of the functions on positions.

A handle says nothing about where it comes from.  One from a larger tree is refused only where it
lies beyond the layers of this one, and otherwise names whatever layer is at that position here.
-/

set_option autoImplicit false

namespace MapLayers

/-- A handle that does not belong to an arena of the given size. -/
structure ForeignHandle where
  handle : Nat
  size : Nat
deriving DecidableEq, Repr

/-- The handle with a label, for diagnostics. -/
def labelledHandle (k : Nat) : String := "LayerId(" ++ toString k ++ ")"

/-- The refusal in words. -/
def ForeignHandle.message (e : ForeignHandle) : String :=
  "LayerId " ++ labelledHandle e.handle ++ " out of range (len " ++ toString e.size ++ ")"

namespace Arena

variable {α : Type}

/-- What is asked about the layer of a handle, if there is such a layer. -/
def ask (t : Arena) (handle : Nat) (question : Nat → α) : Except ForeignHandle α :=
  if handle < t.size then .ok (question handle) else .error ⟨handle, t.size⟩

/-- The parent of a layer below `root`.  The handle of the root is looked at first. -/
def askParentBelow (t : Arena) (handle root : Nat) : Except ForeignHandle (Option Nat) := do
  let root ← t.ask root id
  t.ask handle fun k => t.parentBelow k root

theorem ask_eq_ok_of_lt (t : Arena) {handle : Nat} (h : handle < t.size) (question : Nat → α) :
    t.ask handle question = .ok (question handle) := by simp [ask, h]

end Arena

end MapLayers
