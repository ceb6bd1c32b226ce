import MapLayers.Flat.Links

/-!
# Sweeping a forest from its roots

A sweep marks everything that hangs below the entries without a parent.  It keeps a stack of entries
to visit, takes one off, marks it and puts its children on, without asking whether they are marked
already.  That is enough because every entry has at most one parent, and the roots have none: a
cycle cannot be entered, and no entry is put on the stack twice.  So as many steps as there are
entries empty the stack, and what is unmarked then is on a cycle or below one.

The error about cycles is about the first entry in the list that is left unmarked
(`Sweep.firstUnmarked`).  It need not be on the cycle itself.
-/

set_option autoImplicit false

namespace MapLayers

/-- The state of a sweep. -/
structure Sweep where
  /-- Which entries are marked. -/
  marked : Array Bool
  /-- The entries that are still to be visited. -/
  pending : List Nat
deriving DecidableEq, Repr

namespace Sweep

/-- Nothing is marked, and the given entries are to be visited. -/
def start (n : Nat) (roots : List Nat) : Sweep := ⟨Array.replicate n false, roots⟩

/-- Visit the next entry. -/
def step (children : Array (List Nat)) (s : Sweep) : Sweep :=
  match s.pending with
  | [] => s
  | i :: rest => ⟨s.marked.setIfInBounds i true, children.getD i [] ++ rest⟩

/-- Take so many steps. -/
def run (children : Array (List Nat)) : Nat → Sweep → Sweep
  | 0, s => s
  | n + 1, s => run children n (s.step children)

/-- Sweep all that hangs below the roots of a list of parents. -/
def ofParents (parents : List (Option Nat)) : Sweep :=
  run (childTable parents) parents.length (start parents.length (positionsUnder parents none))

/-- The first entry that is not marked. -/
def firstUnmarked (s : Sweep) : Option Nat := s.marked.toList.findIdx? (! ·)

end Sweep

end MapLayers
