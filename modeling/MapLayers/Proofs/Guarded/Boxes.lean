import MapLayers.Proofs.Boxes.Inheritance
import MapLayers.Proofs.Guarded.Reading

/-!
# Effective boxes, guarded

The effective boxes of all layers are worked out in one pass over the nodes.  At each node the pass
reads the table of the parent among the tables that it has made so far.  Parents come first, so this
table is there: that is all that the pass needs to know about the links (`foldlM_boxTableGuarded`),
and for the arena of a tree it is known from its layout (`Arena.boxesGuarded_eq_ok`).  Afterwards
there is one table for each layer (`Hierarchy.size_boxes`), so whoever looks up the boxes of a layer
finds them (`Hierarchy.boxTableGuarded_eq_ok`, `Hierarchy.inheritedBoxGuarded_eq_ok`).

A guarded run reads the table of the parent once for all coordinate systems, also when it is asked
about none.  The plain pass reads it once for each system, and so would not notice a missing one
where no system is referenced; the guarded one is the stricter of the two.
-/

set_option autoImplicit false

namespace MapLayers

open Guarded

/-- The boxes that a layer with the given parent inherits, from the tables made so far. -/
def inheritedBoxGuarded (boxes : Array BoxTable) :
    Option Nat → Guarded (Crs → Option EffectiveBox)
  | none => .ok fun _ => none
  | some p => do
    let table ← read boxes p
    return fun c => (table.lookup c).bind (passedOn p)

/-- The effective boxes of a layer in the given systems, from the tables made so far. -/
def Node.boxTableGuarded (n : Node) (primary : Crs) (referenced : List Crs)
    (boxes : Array BoxTable) : Guarded BoxTable := do
  let inherited ← inheritedBoxGuarded boxes n.parent
  return referenced.filterMap fun c =>
    ((n.attributes.declaredBox c).or ((inherited c).or (standardBox primary c))).map (c, ·)

/-- The effective boxes of all layers in all referenced systems, layer by layer. -/
def Arena.boxesGuarded (t : Arena) (primary : Crs) : Guarded (Array BoxTable) :=
  t.nodes.toList.foldlM
    (fun boxes n => return boxes.push (← n.boxTableGuarded primary (t.referenced primary) boxes))
    #[]

namespace Hierarchy

/-- The effective boxes of a layer. -/
def boxTableGuarded (h : Hierarchy) (k : Nat) : Guarded BoxTable := read h.boxes k

/-- The boxes that a layer would have if it declared none and there were no standard extents. -/
def inheritedBoxGuarded (h : Hierarchy) (k : Nat) : Guarded (Crs → Option EffectiveBox) := do
  MapLayers.inheritedBoxGuarded h.boxes (← h.look k Node.parent)

end Hierarchy

/-! ## The pass -/

theorem inheritedBoxGuarded_eq_ok {boxes : Array BoxTable} {parent : Option Nat}
    (h : ∀ p, parent = some p → p < boxes.size) :
    inheritedBoxGuarded boxes parent = .ok (inheritedBox boxes parent) := by
  cases parent with
  | none => rfl
  | some p =>
    rw [inheritedBoxGuarded, read_of_lt (h p rfl) []]
    rfl

theorem Node.boxTableGuarded_eq_ok {n : Node} {boxes : Array BoxTable} (primary : Crs)
    (referenced : List Crs) (h : ∀ p, n.parent = some p → p < boxes.size) :
    n.boxTableGuarded primary referenced boxes = .ok (n.boxTable primary referenced boxes) := by
  rw [boxTableGuarded, inheritedBoxGuarded_eq_ok h]
  rfl

/-- **A pass over nodes whose parents come first** finds every table that it looks for. -/
theorem foldlM_boxTableGuarded (primary : Crs) (referenced : List Crs) (ns : List Node)
    (h : ∀ (i : Nat) n, ns[i]? = some n → ∀ p, n.parent = some p → p < i) :
    ns.foldlM
        (fun boxes n => (return boxes.push (← n.boxTableGuarded primary referenced boxes) :
          Guarded (Array BoxTable))) #[]
      = .ok (tablesOf primary referenced ns) := by
  induction ns using List.reverseRecOn with
  | nil => rfl
  | append_singleton ns n ih =>
    have hbefore : ∀ (i : Nat) m, ns[i]? = some m → ∀ p, m.parent = some p → p < i := by
      intro i m hm
      have hi := (List.getElem?_eq_some_iff.mp hm).1
      exact h i m (by rw [List.getElem?_append_left hi, hm])
    have hlast : ∀ p, n.parent = some p → p < (tablesOf primary referenced ns).size := by
      rw [size_tablesOf]
      exact h ns.length n (by rw [List.getElem?_append_right (Nat.le_refl _), Nat.sub_self]; rfl)
    rw [List.foldlM_append, ih hbefore, ok_bind, List.foldlM_cons,
      Node.boxTableGuarded_eq_ok primary referenced hlast, tablesOf_concat]
    rfl

theorem Arena.boxesGuarded_eq_ok (l : Layer) (primary : Crs) :
    (ofLayer l).boxesGuarded primary = .ok ((ofLayer l).boxes primary) := by
  rw [boxesGuarded, foldlM_boxTableGuarded, boxes, boxesIn, tablesOf, Array.foldl_toList]
  intro i n hn p hp
  refine (encodes l).parent_lt i p ?_
  rw [parent, ← Array.getElem?_toList, hn]
  exact hp

/-! ## The tables of a hierarchy -/

namespace Hierarchy

variable {l : Layer} {primary : Crs} {k : Nat}

theorem size_boxes (l : Layer) (primary : Crs) :
    (ofLayer l primary).boxes.size = (ofLayer l primary).size := by
  rw [boxes_eq, size_tablesOf, List.length_map, Place.length_all]
  exact (Arena.size_ofLayer l).symm

theorem boxTableGuarded_eq_ok (h : k < (ofLayer l primary).size) :
    (ofLayer l primary).boxTableGuarded k = .ok ((ofLayer l primary).boxTable k) := by
  rw [← size_boxes] at h
  exact read_of_lt h []

theorem inheritedBoxGuarded_eq_ok (h : k < (ofLayer l primary).size) :
    (ofLayer l primary).inheritedBoxGuarded k = .ok ((ofLayer l primary).inheritedBox k) := by
  rw [inheritedBoxGuarded, Arena.look_parent h, ok_bind]
  refine MapLayers.inheritedBoxGuarded_eq_ok fun p hp => ?_
  rw [size_boxes]
  exact parent_lt_size hp

end Hierarchy

end MapLayers
