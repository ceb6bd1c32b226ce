import MapLayers.Proofs.Layout.Depths
import MapLayers.Proofs.Views.Cursors

/-!
# Parents below a layer

The parent of a layer that lies below another one is found by climbing, from the layer upwards,
until the other one is met or nothing is left above.  It can also be searched from the top down,
among the children of the other one and all below them (`Layer.findParent`).  Both come to the same
(`Arena.parentBelow_eq_findParent`): climbing meets just the layers above (`Arena.meets_iff`), and
the walk below a layer visits just those that it is above of (`Arena.above_iff_mem_descendants`).

A parent is found when the root is that parent or above it (`Arena.parentBelow_eq_some_iff`).  So
there are two ways to find none: the layer is the root itself, or it does not lie below the root at
all.

Every parent is one level further up, so from any layer of a subtree the root of it is reached after
as many parents as there are levels between, and after no other number (`Arena.ascend_eq_some_iff`).
-/

set_option autoImplicit false

namespace MapLayers

namespace Layer

mutual

/-- The parent of the layer at a position, searched among all below a layer with a given
position. -/
def findParent (k position : Nat) : Layer → Option Nat
  | .node _ cs => findParentAll k position (position + 1) cs

/-- The parent of the layer at a position, searched among some siblings and all below them. -/
def findParentAll (k parent position : Nat) : List Layer → Option Nat
  | [] => none
  | c :: cs =>
    if k = position then some parent
    else (c.findParent k position).or (findParentAll k parent (position + c.count) cs)

end

end Layer

namespace Arena

/-- The layer that is so many parents up, all of them below `root`. -/
def ascend (t : Arena) (root : Nat) : Nat → Nat → Option Nat
  | 0, k => some k
  | n + 1, k => (t.parentBelow k root).bind (ascend t root n)

/-- The parents of layers are found below other layers, just where these are above them. -/
structure FindsParents (t : Arena) (l : Layer) : Prop where
  /-- Climbing looks at layers only, and ends. -/
  ends : ∀ k < t.size, t.depthGuarded k = .ok (t.depth k) ∧
    ∀ root < t.size, t.parentBelowGuarded k root = .ok (t.parentBelow k root)
  /-- There is a parent for just the layers that the walk from the root meets after it. -/
  found : ∀ k < t.size, ∀ root < t.size,
    (t.parentBelow k root).isSome ↔ k ≠ root ∧ k ∈ t.descendants root
  /-- It is the parent of the layer, and the walk meets it too. -/
  parent : ∀ k < t.size, ∀ root < t.size, ∀ p, t.parentBelow k root = some p →
    t.parent k = some p ∧ p ∈ t.descendants root
  /-- There is none for the root itself, for what is above it or elsewhere, and for the top
  layer. -/
  absent : ∀ k < t.size, ∀ root < t.size,
    k = root ∨ t.Above k root ∨ k ∉ t.descendants root ∨ k = top → t.parentBelow k root = none
  /-- A search from the root down finds the same. -/
  search : ∀ root s, l.preorder[root]? = some s → ∀ k < t.size,
    t.parentBelow k root = s.findParent k root
  /-- The depths are those of the nested layers. -/
  depths : (List.range t.size).map t.depth = l.depths 0
  /-- The root is reached after as many parents as there are levels between, and no other number. -/
  ascend : ∀ root < t.size, ∀ k ∈ t.descendants root, t.depth root ≤ t.depth k ∧
    ∀ n, t.ascend root n k = some root ↔ n = t.depth k - t.depth root

end Arena

/-! ## Searching from the top down

`Layer.findParent` goes through a tree and keeps count of positions.  It gives the parent of the
place at the position that is asked about, if the place is below the layer that the search starts
from. -/

namespace Layer

section

variable (parent : Nat → Option Nat)

mutual

/-- **The search finds the parents of the layers below**, and no others. -/
theorem findParent_eq : ∀ (l : Layer) (k j : Nat) (p nx : Option Nat),
    (∀ r ∈ l.places j p nx, parent r.position = r.parent) →
      l.findParent k j = if j < k ∧ k < j + l.count then parent k else none
  | .node a cs, k, j, p, nx, h => by
    rw [places] at h
    rw [findParent, findParentAll_eq cs k j (j + 1) fun r hr => h r (List.mem_cons_of_mem _ hr),
      count]
    exact if_congr (by omega) rfl rfl

theorem findParentAll_eq : ∀ (cs : List Layer) (k p j : Nat),
    (∀ r ∈ placesAll p j cs, parent r.position = r.parent) →
      findParentAll k p j cs = if j ≤ k ∧ k < j + countAll cs then parent k else none
  | [] => by
    intro k p j _
    rw [findParentAll, countAll, if_neg (by omega)]
  | c :: cs => by
    intro k p j h
    rw [placesAll, List.forall_mem_append] at h
    have hcount := c.count_pos
    rw [findParentAll, countAll]
    split
    · rename_i hk
      have hfirst : parent j = some p :=
        h.1 ⟨c, j, some p, firstOf (j + c.count) cs⟩ (Place.mem_all_self _)
      rw [hk, hfirst, if_pos (by omega)]
    · rename_i hk
      rw [findParent_eq c k j _ _ h.1, findParentAll_eq cs k p (j + c.count) h.2]
      by_cases hc : k < j + c.count
      · -- the layer is below this sibling, or before all of them
        rw [if_neg (by omega : ¬ (j + c.count ≤ k ∧ k < j + c.count + countAll cs)), Option.or_none]
        exact if_congr (by omega) rfl rfl
      · rw [if_neg (by omega : ¬ (j < k ∧ k < j + c.count)), Option.none_or]
        exact if_congr (by omega) rfl rfl

end

end

end Layer

namespace Arena

variable {l : Layer} {q : Place} {a k p root : Nat}

/-! ## Climbing -/

/-- **Climbing meets the layer itself and those above it.** -/
theorem meets_iff {t : Arena} (first : ∀ k p, t.parent k = some p → p < k) (a : Nat) :
    ∀ n k, k < n → (t.meets a n k = true ↔ a = k ∨ t.Above a k)
  | 0, _, h => absurd h (Nat.not_lt_zero _)
  | n + 1, k, h => by
    rw [meets]
    split
    · rename_i hk
      exact iff_of_true rfl (Or.inl hk.symm)
    · rename_i hk
      rw [or_iff_right (Ne.symm hk)]
      cases hparent : t.parent k with
      | none => exact iff_of_false Bool.false_ne_true (not_above_of_parent_eq_none hparent)
      | some p =>
        have hp := first k p hparent
        rw [above_iff hparent]
        exact meets_iff first a n p (by omega)

/-- **A parent is found when the root is that parent or above it.** -/
theorem parentBelow_eq_some_iff (hk : k < (ofLayer l).size) :
    (ofLayer l).parentBelow k root = some p ↔
      (ofLayer l).parent k = some p ∧ (root = p ∨ (ofLayer l).Above root p) := by
  rw [parentBelow]
  cases hparent : (ofLayer l).parent k with
  | none => simp
  | some j =>
    have hj := (encodes l).parent_lt k j hparent
    have hmeets := meets_iff (encodes l).parent_lt root (ofLayer l).size j (by omega)
    dsimp only
    by_cases h : root = j ∨ (ofLayer l).Above root j
    · rw [if_pos (hmeets.mpr h)]
      refine ⟨fun heq => ⟨heq, ?_⟩, fun heq => heq.1⟩
      cases heq
      exact h
    · rw [if_neg (mt hmeets.mp h)]
      refine ⟨fun heq => absurd heq (by simp), fun heq => ?_⟩
      cases heq.1
      exact absurd heq.2 h

theorem isSome_parentBelow_iff (hk : k < (ofLayer l).size) :
    ((ofLayer l).parentBelow k root).isSome ↔ (ofLayer l).Above root k := by
  rw [Option.isSome_iff_exists]
  refine ⟨?_, fun h => ?_⟩
  · rintro ⟨p, hp⟩
    obtain ⟨hparent, hroot⟩ := (parentBelow_eq_some_iff hk).mp hp
    exact (above_iff hparent).mpr hroot
  · cases hparent : (ofLayer l).parent k with
    | none => exact absurd h (not_above_of_parent_eq_none hparent)
    | some p => exact ⟨p, (parentBelow_eq_some_iff hk).mpr ⟨hparent, (above_iff hparent).mp h⟩⟩

theorem parentBelow_of_above (hk : k < (ofLayer l).size) (h : (ofLayer l).Above root k) :
    (ofLayer l).parentBelow k root = (ofLayer l).parent k := by
  obtain ⟨p, hp⟩ := Option.isSome_iff_exists.mp ((isSome_parentBelow_iff hk).mpr h)
  rw [hp, ((parentBelow_eq_some_iff hk).mp hp).1]

theorem parentBelow_of_not_above (hk : k < (ofLayer l).size) (h : ¬ (ofLayer l).Above root k) :
    (ofLayer l).parentBelow k root = none :=
  Option.not_isSome_iff_eq_none.mp (mt (isSome_parentBelow_iff hk).mp h)

/-! ## The layers of a subtree -/

theorem mem_descendants_iff (hroot : root < (ofLayer l).size) :
    k ∈ (ofLayer l).descendants root ↔ k = root ∨ (ofLayer l).Above root k := by
  obtain ⟨q, hq, rfl⟩ := exists_place hroot
  rw [descendants_eq hq, mem_row_iff hq]

/-- A layer is above all others of its subtree. -/
theorem above_iff_mem_descendants (hroot : root < (ofLayer l).size) :
    (ofLayer l).Above root k ↔ k ≠ root ∧ k ∈ (ofLayer l).descendants root := by
  rw [mem_descendants_iff hroot]
  refine ⟨fun h => ⟨Nat.ne_of_gt (h.lt (encodes l).parent_lt), Or.inr h⟩, ?_⟩
  rintro ⟨hne, heq | habove⟩
  · exact absurd heq hne
  · exact habove

/-- **Climbing finds what a search from the top down finds.** -/
theorem parentBelow_eq_findParent (hq : q ∈ (Place.top l).all) (hk : k < (ofLayer l).size) :
    (ofLayer l).parentBelow k q.position = q.layer.findParent k q.position := by
  have hsearch := Layer.findParent_eq (ofLayer l).parent q.layer k q.position q.parent q.nextSibling
    fun r hr => parent_eq (Place.mem_all_trans hq hr)
  have hrow : (ofLayer l).Above q.position k ↔
      q.position < k ∧ k < q.position + q.layer.count := by
    rw [above_iff_mem_descendants (position_lt_size hq), descendants_eq hq, List.mem_range'_1]
    omega
  rw [hsearch]
  split
  · rename_i h
    exact parentBelow_of_above hk (hrow.mpr h)
  · rename_i h
    exact parentBelow_of_not_above hk (mt hrow.mp h)

/-! ## From parent to parent

Depths count the parents: each step up makes the depth one less, so the number of steps to the root
is the difference of the depths. -/

/-- No layer of a subtree is less deep than its root. -/
theorem depth_root_le (hroot : root < (ofLayer l).size) (hk : k ∈ (ofLayer l).descendants root) :
    (ofLayer l).depth root ≤ (ofLayer l).depth k := by
  rcases (mem_descendants_iff hroot).mp hk with rfl | habove
  · exact Nat.le_refl _
  · exact Nat.le_of_lt (depth_lt_of_above habove)

theorem lt_size_of_above (h : (ofLayer l).Above a k) : k < (ofLayer l).size := by
  cases h with
  | parent hp => exact lt_size_of_parent hp
  | up hp _ => exact lt_size_of_parent hp

/-- **From a layer of a subtree to its root** it takes as many parents as there are levels
between. -/
theorem ascend_eq_some_iff (hroot : root < (ofLayer l).size) :
    ∀ n k, k ∈ (ofLayer l).descendants root →
      ((ofLayer l).ascend root n k = some root ↔
        (ofLayer l).depth k = (ofLayer l).depth root + n)
  | 0, k, hk => by
    rw [ascend, Option.some_inj, Nat.add_zero]
    refine ⟨fun h => by rw [h], fun h => ?_⟩
    rcases (mem_descendants_iff hroot).mp hk with heq | habove
    · exact heq
    · exact absurd h (Nat.ne_of_gt (depth_lt_of_above habove))
  | n + 1, k, hk => by
    rw [ascend]
    rcases (mem_descendants_iff hroot).mp hk with rfl | habove
    · -- nothing is found for the root itself
      rw [parentBelow_of_not_above hroot fun h => Nat.lt_irrefl _ (h.lt (encodes l).parent_lt)]
      exact iff_of_false (by simp) (by omega)
    · have hk := lt_size_of_above habove
      obtain ⟨p, hp⟩ := Option.isSome_iff_exists.mp ((isSome_parentBelow_iff hk).mpr habove)
      obtain ⟨hparent, hbelow⟩ := (parentBelow_eq_some_iff hk).mp hp
      have hmem : p ∈ (ofLayer l).descendants root :=
        (mem_descendants_iff hroot).mpr (hbelow.imp_left Eq.symm)
      rw [hp, Option.bind_some, ascend_eq_some_iff hroot n p hmem, depth_of_parent hparent,
        ← Nat.add_assoc, Nat.add_left_inj]

end Arena

/-- **Parents are found below a layer as by a search of its subtree**, and they lead back to it. -/
theorem Hierarchy.findsParents (l : Layer) (primary : Crs) :
    (ofLayer l primary).FindsParents l where
  ends _ hk := ⟨Arena.depthGuarded_eq_ok hk, fun _ hroot => Arena.parentBelowGuarded_eq_ok hk hroot⟩
  found k hk root hroot :=
    (Arena.isSome_parentBelow_iff hk).trans (Arena.above_iff_mem_descendants hroot)
  parent k hk root hroot p hp := by
    obtain ⟨hparent, hbelow⟩ := (Arena.parentBelow_eq_some_iff hk).mp hp
    exact ⟨hparent, (Arena.mem_descendants_iff hroot).mpr (hbelow.imp_left Eq.symm)⟩
  absent k hk root hroot h := by
    have first := (Arena.encodes l).parent_lt
    refine Arena.parentBelow_of_not_above hk fun habove => ?_
    have hlt : root < k := habove.lt first
    rcases h with rfl | h | h | rfl
    · exact Nat.lt_irrefl _ hlt
    · exact Nat.lt_asymm hlt (h.lt first)
    · exact h ((Arena.mem_descendants_iff hroot).mpr (Or.inr habove))
    · exact Nat.not_lt_zero _ hlt
  search root s hs k hk := by
    obtain ⟨q, hq, rfl, rfl⟩ := Place.preorder_eq_some_iff.mp hs
    exact Arena.parentBelow_eq_findParent hq hk
  depths := (congrArg _ (Arena.all_eq_range_size l)).symm.trans (Arena.map_depth_all l)
  ascend root hroot k hk := by
    have hle := Arena.depth_root_le hroot hk
    refine ⟨hle, fun n => (Arena.ascend_eq_some_iff hroot n k hk).trans ?_⟩
    show (Arena.ofLayer l).depth k = _ ↔
      n = (Arena.ofLayer l).depth k - (Arena.ofLayer l).depth root
    omega

/-- Rivers are below the water layers, and not below the roads. -/
example : (Arena.ofLayer Samples.service).parentBelow 5 4 = some 4 ∧
    (Arena.ofLayer Samples.service).parentBelow 5 1 = none ∧
      (Arena.ofLayer Samples.service).ascend 0 2 5 = some 0 := by decide +kernel

end MapLayers
