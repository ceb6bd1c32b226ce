import MapLayers.Proofs.Layout.Ancestors
import MapLayers.Proofs.Layout.Encoding
import MapLayers.Proofs.Layout.Walking

/-!
# Depths

The depth of a layer is found by climbing to the top, with a bound on the steps.  In the arena of a
tree the bound is never reached, so a layer is just one deeper than its parent
(`Arena.depth_of_parent`) and deeper than all layers above it (`Arena.depth_lt_of_above`).

In a description nothing is climbed: going down, the depth grows by one at every level
(`Layer.depths`).  This gives the same depths, position by position (`Arena.map_depth_all`), because
numbers that grow by one from each parent to its children are depths, wherever they come from.

The description that is deepest for its number of layers is a chain, `Layer.chain`, in which every
layer but the last has one child.  Its depths are the numbers from the depth of its top layer on
(`Layer.depths_chain`).
-/

set_option autoImplicit false

namespace MapLayers

namespace Layer

mutual

/-- The depths of a layer and all below it, in pre-order, when its own is given. -/
def depths (d : Nat) : Layer → List Nat
  | .node _ cs => d :: depthsAll (d + 1) cs

/-- The depths of some siblings and all below them, in pre-order. -/
def depthsAll (d : Nat) : List Layer → List Nat
  | [] => []
  | c :: cs => c.depths d ++ depthsAll d cs

end

section

variable (f : Nat → Nat)

mutual

/-- Numbers that grow by one from parent to child are depths. -/
theorem map_places_eq_depths : ∀ (l : Layer) (k : Nat) (p nx : Option Nat),
    (∀ r ∈ l.places k p nx, ∀ j, r.parent = some j → f r.position = f j + 1) →
      (l.places k p nx).map (fun r => f r.position) = l.depths (f k)
  | .node a cs, k, p, nx, h => by
    rw [places] at h ⊢
    rw [List.map_cons, depths,
      map_placesAll_eq_depths cs k (k + 1) fun r hr => h r (List.mem_cons_of_mem _ hr)]

theorem map_placesAll_eq_depths : ∀ (cs : List Layer) (p k : Nat),
    (∀ r ∈ placesAll p k cs, ∀ j, r.parent = some j → f r.position = f j + 1) →
      (placesAll p k cs).map (fun r => f r.position) = depthsAll (f p + 1) cs
  | [] => by
    intro _ _ _
    rfl
  | c :: cs => by
    intro p k h
    rw [placesAll] at h ⊢
    rw [List.forall_mem_append] at h
    have hfirst : f k = f p + 1 :=
      h.1 ⟨c, k, some p, firstOf (k + c.count) cs⟩ (Place.mem_all_self _) p rfl
    rw [List.map_append, depthsAll, map_places_eq_depths c k _ _ h.1, hfirst,
      map_placesAll_eq_depths cs p (k + c.count) h.2]

end

end

/-! ## Chains -/

/-- Layers with the given attributes, each of them below the one before. -/
def chain (a : Attributes) : List Attributes → Layer
  | [] => .leaf a
  | b :: as => .node a [chain b as]

/-- Every layer of a chain is one deeper than the one before. -/
theorem depths_chain : ∀ (as : List Attributes) (a : Attributes) (d : Nat),
    (chain a as).depths d = List.range' d (as.length + 1)
  | [], _, _ => rfl
  | b :: as, a, d => by
    rw [chain, depths, depthsAll, depthsAll, List.append_nil, depths_chain as b (d + 1),
      List.length_cons, ← List.range'_succ]

end Layer

namespace Arena

/-! ## Climbing

Climbing from a layer takes one step more than climbing from its parent, as long as the bound allows
for it; and it does, since each step leads to a smaller position. -/

section

variable {t : Arena} {k p : Nat}

theorem depth_of_parent_eq_none (h : t.parent k = none) : t.depth k = 0 := by
  rw [depth]
  cases t.size with
  | zero => rfl
  | succ n => rw [climb, h]

/-- Where parents come first, a bound beyond the position is as good as any other. -/
theorem climb_eq_of_lt (first : ∀ k p, t.parent k = some p → p < k) :
    ∀ (n m k : Nat), k < n → k < m → t.climb n k = t.climb m k
  | 0, _, _, hn, _ => absurd hn (Nat.not_lt_zero _)
  | _, 0, _, _, hm => absurd hm (Nat.not_lt_zero _)
  | n + 1, m + 1, k, hn, hm => by
    rw [climb, climb]
    cases hparent : t.parent k with
    | none => rfl
    | some p =>
      have hp := first k p hparent
      exact congrArg Nat.succ (climb_eq_of_lt first n m p (by omega) (by omega))

end

variable {l : Layer} {a k p : Nat}

/-- **A layer is one deeper than its parent.** -/
theorem depth_of_parent (h : (ofLayer l).parent k = some p) :
    (ofLayer l).depth k = (ofLayer l).depth p + 1 := by
  have hk := lt_size_of_parent h
  have hp := (encodes l).parent_lt k p h
  obtain ⟨m, hm⟩ := Nat.exists_eq_succ_of_ne_zero (Nat.ne_of_gt (Nat.zero_lt_of_lt hk))
  have hclimb : (ofLayer l).climb (m + 1) p = (ofLayer l).climb m p :=
    climb_eq_of_lt (encodes l).parent_lt _ _ p (by omega) (by omega)
  rw [depth, depth, hm, hclimb, climb, h]

/-- A layer is deeper than those above it. -/
theorem depth_lt_of_above (h : (ofLayer l).Above a k) :
    (ofLayer l).depth a < (ofLayer l).depth k := by
  induction h with
  | parent hp =>
    rw [depth_of_parent hp]
    exact Nat.lt_succ_self _
  | up hp _ ih =>
    rw [depth_of_parent hp]
    exact Nat.lt_succ_of_lt ih

/-- **The depths of all layers are those of the description.** -/
theorem map_depth_all (l : Layer) : (ofLayer l).all.map (ofLayer l).depth = l.depths 0 := by
  have hdepth : ∀ r ∈ (Place.top l).all, ∀ j, r.parent = some j →
      (ofLayer l).depth r.position = (ofLayer l).depth j + 1 :=
    fun r hr j hj => depth_of_parent ((parent_eq hr).trans hj)
  have htop : (ofLayer l).depth 0 = 0 :=
    depth_of_parent_eq_none (parent_eq (Place.mem_all_self (Place.top l)))
  rw [all_eq_positions, List.map_map]
  exact (Layer.map_places_eq_depths (ofLayer l).depth l 0 none none hdepth).trans (by rw [htop])

end Arena

end MapLayers
