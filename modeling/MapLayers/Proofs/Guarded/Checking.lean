import MapLayers.Proofs.Check.ByLayer
import MapLayers.Proofs.Guarded.Views
import MapLayers.Trace

/-!
# The check, guarded

The check walks all layers.  At each it looks at the layer, at the boxes of the layer and at those
of its parent, in all systems at once.  The shape of a hierarchy in numbers is worked out by the
same walk, with the depth of every layer.

A rule that needs no look at another layer cannot fail, so most of a check has no guarded form of
its own: `Hierarchy.layerFindingsGuarded` makes the looks first and then calls the plain rules with
what it has found.  That nothing fails (`Hierarchy.checkGuarded_eq_ok`,
`Hierarchy.summaryGuarded_eq_ok`) comes from the walk, which gives positions of layers only, and
from the tables of boxes, of which there is one for each layer.
-/

set_option autoImplicit false

namespace MapLayers

open Guarded

/-- The roles of all layers, by position. -/
def Arena.rolesGuarded (t : Arena) : Guarded (List Role) :=
  (List.range t.size).mapM fun k => t.look k Node.role

namespace Hierarchy

/-- The styles that layers share with their parents, where that is an error. -/
def forbiddenSharedGuarded (h : Hierarchy) (s : Settings) : Guarded (List (Nat × List String)) :=
  if s.forbidsSharedStyles then h.styleCollisionsGuarded else .ok []

/-- What violates a rule at one layer. -/
def layerFindingsGuarded (h : Hierarchy) (s : Settings) (shared : List (Nat × List String))
    (names : Holders) (k : Nat) : Guarded (List Finding) := do
  let a ← h.look k Node.attributes
  let role ← h.look k Node.role
  let parent ← h.look k Node.parent
  let inherited ← h.inheritedBoxGuarded k
  let table ← h.boxTableGuarded k
  let found := checkName names a role
    ++ checkVisibility a role
    ++ checkStyles s a role
    ++ checkSource s a role
    ++ checkScales a
    ++ checkDeclaredBoxes inherited [] a.boxes
    ++ checkPrimaryBox s (table.lookup s.primary)
    ++ checkSharedStyles a parent ((shared.lookup k).getD [])
  return found.map (·.located k a.name)

/-- What violates a rule at some layers, visited in order. -/
def walkFindingsGuarded (h : Hierarchy) (s : Settings) (shared : List (Nat × List String)) :
    Holders → List Nat → Guarded (List Finding)
  | _, [] => .ok []
  | names, k :: ks => do
    let here ← h.layerFindingsGuarded s shared names k
    let a ← h.look k Node.attributes
    return here ++ (← h.walkFindingsGuarded s shared (names.meet k a) ks)

/-- The rule about the hierarchy as a whole. -/
def checkAnyVisibleGuarded (h : Hierarchy) : Guarded (List Finding) := do
  let attributes ← (← h.allGuarded).mapM fun k => h.look k Node.attributes
  return if attributes.any Attributes.isVisible then [] else [Finding.of .noVisibleLayer]

/-- The report on a hierarchy. -/
def checkGuarded (h : Hierarchy) (s : Settings) : Guarded Report := do
  let shared ← h.forbiddenSharedGuarded s
  let found ← h.walkFindingsGuarded s shared .empty (← h.allGuarded)
  return .ofFindings (found ++ (← h.checkAnyVisibleGuarded))

/-- The shape of a hierarchy in numbers. -/
def summaryGuarded (h : Hierarchy) : Guarded Summary := do
  let all ← h.allGuarded
  let groups ← Guarded.filter (fun k => return (← h.look k Node.role) == .group) all
  let data ← Guarded.filter (fun k => return (← h.look k Node.role) == .data) all
  let depths ← all.mapM h.depthGuarded
  return {
    layers := h.size
    groups := groups.length
    data := data.length
    depth := depths.foldl max 0
    systems := h.referenced.length }

end Hierarchy

/-! ## Nothing fails

Each part of the check on the hierarchy of a tree, and then the whole walk. -/

theorem Arena.rolesGuarded_eq_ok (l : Layer) :
    (ofLayer l).rolesGuarded = .ok ((List.range (ofLayer l).size).map (ofLayer l).role) :=
  mapM_eq_ok fun _ hk => look_role (List.mem_range.mp hk)

namespace Hierarchy

variable {l : Layer} {primary : Crs} {s : Settings} {shared : List (Nat × List String)}
  {names : Holders} {k : Nat}

theorem forbiddenSharedGuarded_eq_ok : (ofLayer l primary).forbiddenSharedGuarded s
    = .ok ((ofLayer l primary).forbiddenShared s) := by
  rw [forbiddenSharedGuarded, forbiddenShared]
  split
  · exact Arena.styleCollisionsGuarded_eq_ok l
  · rfl

theorem layerFindingsGuarded_eq_ok (h : k < (ofLayer l primary).size) :
    (ofLayer l primary).layerFindingsGuarded s shared names k
      = .ok ((ofLayer l primary).layerFindings s shared names k) := by
  rw [layerFindingsGuarded, Arena.look_attributes h, ok_bind, Arena.look_role h, ok_bind,
    Arena.look_parent h, ok_bind, inheritedBoxGuarded_eq_ok h, ok_bind, boxTableGuarded_eq_ok h]
  rfl

theorem walkFindingsGuarded_eq_ok : ∀ {ks : List Nat} {names : Holders},
    (∀ k ∈ ks, k < (ofLayer l primary).size) →
      (ofLayer l primary).walkFindingsGuarded s shared names ks
        = .ok ((ofLayer l primary).walkFindings s shared names ks)
  | [], _, _ => rfl
  | k :: ks, names, h => by
    rw [List.forall_mem_cons] at h
    rw [walkFindingsGuarded, layerFindingsGuarded_eq_ok h.1, ok_bind, Arena.look_attributes h.1,
      ok_bind, walkFindingsGuarded_eq_ok h.2, walkFindings]
    rfl

theorem allGuarded_eq_ok : (ofLayer l primary).allGuarded = .ok (ofLayer l primary).all :=
  Arena.allGuarded_eq_ok l

theorem depthGuarded_eq_ok (h : k < (ofLayer l primary).size) :
    (ofLayer l primary).depthGuarded k = .ok ((ofLayer l primary).depth k) :=
  Arena.depthGuarded_eq_ok h

theorem checkAnyVisibleGuarded_eq_ok : (ofLayer l primary).checkAnyVisibleGuarded
    = .ok (ofLayer l primary).checkAnyVisible := by
  rw [checkAnyVisibleGuarded, allGuarded_eq_ok, ok_bind,
    mapM_eq_ok fun k hk => Arena.look_attributes (mem_all_iff.mp hk), ok_bind, List.any_map]
  rfl

/-- **Nothing fails while a hierarchy is checked.** -/
theorem checkGuarded_eq_ok (l : Layer) (primary : Crs) (s : Settings) :
    (ofLayer l primary).checkGuarded s = .ok ((ofLayer l primary).check s) := by
  rw [checkGuarded, forbiddenSharedGuarded_eq_ok, ok_bind, allGuarded_eq_ok, ok_bind,
    walkFindingsGuarded_eq_ok fun k => mem_all_iff.mp, ok_bind, checkAnyVisibleGuarded_eq_ok]
  rfl

/-- **Nothing fails while a hierarchy is summed up.** -/
theorem summaryGuarded_eq_ok (l : Layer) (primary : Crs) :
    (ofLayer l primary).summaryGuarded = .ok (ofLayer l primary).summary := by
  have hall : ∀ k ∈ (ofLayer l primary).all, k < (ofLayer l primary).size := fun k => mem_all_iff.mp
  have hdepths : (ofLayer l primary).all.mapM (ofLayer l primary).depthGuarded
      = .ok ((ofLayer l primary).all.map (ofLayer l primary).depth) :=
    mapM_eq_ok fun k hk => depthGuarded_eq_ok (hall k hk)
  rw [summaryGuarded, allGuarded_eq_ok, ok_bind, Arena.filterRoleGuarded_eq_ok hall, ok_bind,
    Arena.filterRoleGuarded_eq_ok hall, ok_bind, hdepths]
  rfl

end Hierarchy

end MapLayers
