import MapLayers.Proofs.Guarded.Laying
import MapLayers.Proofs.Layout.Walking

/-!
# Following links, guarded

Whatever is asked about an arena is answered by looking at layers and following their links.  In the
arena of a tree a guarded reader never looks beyond the layers, never runs along siblings or up to
ancestors for longer than there are layers, and always has a parent to go on with when it climbs
back from a leaf to a layer that it started from.

The readers come in two kinds, and each has its reason to end.

* A **walk** goes on to the first child, or to the next sibling of the nearest layer above that has
  one.  It climbs from below its start only, so it gets back to the start before it runs out of
  parents (`Arena.nextAboveGuarded_eq_ok`), and it gives the layers of a subtree, of which there are
  finitely many (`Arena.walkGuarded_eq_ok`).
* A reader of **children or ancestors** follows one kind of link.  Links to siblings lead to greater
  positions and links to parents to smaller ones, so the number of layers bounds the first
  (`Arena.childrenGuarded_eq_ok`) and the position of the layer the second
  (`Arena.climbGuarded_eq_ok`).

The other modules of guarded readers follow no links of their own; they use the readers of this one.
-/

set_option autoImplicit false

namespace MapLayers

open Guarded

namespace Arena

/-! ## One layer

A look at a layer is a read of the array of nodes.  Asked about a position of the arena it gives
what the plain functions give, which have a default for others. -/

/-- Look at the layer at a position. -/
def look {α : Type} (t : Arena) (k : Nat) (f : Node → α) : Guarded α := return f (← read t.nodes k)

section

variable {α : Type} {t : Arena} {k : Nat}

theorem look_of_lt (h : k < t.nodes.size) (f : Node → α) : t.look k f = .ok (f t.nodes[k]) := by
  rw [look, read_of_getElem? (Array.getElem?_eq_getElem h)]
  rfl

theorem look_attributes (h : k < t.size) : t.look k Node.attributes = .ok (t.attributes k) := by
  rw [look_of_lt h, attributes, Array.getElem?_eq_getElem h]
  rfl

theorem look_role (h : k < t.size) : t.look k Node.role = .ok (t.role k) := by
  rw [look_of_lt h, role, Array.getElem?_eq_getElem h]
  rfl

theorem look_parent (h : k < t.size) : t.look k Node.parent = .ok (t.parent k) := by
  rw [look_of_lt h, parent, Array.getElem?_eq_getElem h]
  rfl

theorem look_firstChild (h : k < t.size) : t.look k Node.firstChild = .ok (t.firstChild k) := by
  rw [look_of_lt h, firstChild, Array.getElem?_eq_getElem h]
  rfl

theorem look_nextSibling (h : k < t.size) : t.look k Node.nextSibling = .ok (t.nextSibling k) := by
  rw [look_of_lt h, nextSibling, Array.getElem?_eq_getElem h]
  rfl

end

/-! ## Walks

The climb at the end of a subtree is where a guarded walk can stop: a layer without a parent, when
the start has not been met, is a `Fault.unlinked`. -/

/-- The next sibling of a layer or of the nearest layer above it that has one, looking no further up
than just below `start`, in so many steps. -/
def nextAboveGuarded (t : Arena) (start : Nat) : Nat → Nat → Guarded (Option Nat)
  | 0, _ => .error .unfinished
  | n + 1, k =>
    if k = start then .ok none
    else do
      match ← t.look k Node.nextSibling with
      | some s => return some s
      | none =>
        match ← t.look k Node.parent with
        | none => .error (.unlinked k)
        | some p => nextAboveGuarded t start n p

/-- The layer after `k` in the subtree of `start`. -/
def afterGuarded (t : Arena) (start k : Nat) : Guarded (Option Nat) := do
  match ← t.look k Node.firstChild with
  | some c => return some c
  | none => t.nextAboveGuarded start t.size k

end Arena

/-- The layers that are left of a walk, in at most so many steps. -/
def Walk.takeGuarded (t : Arena) : Nat → Walk → Guarded (List Nat)
  | _, ⟨_, none⟩ => .ok []
  | 0, ⟨_, some _⟩ => .error .unfinished
  | n + 1, ⟨start, some k⟩ => do
    let next ← t.afterGuarded start k
    return k :: (← takeGuarded t n ⟨start, next⟩)

namespace Arena

/-- A layer and all below it, in pre-order. -/
def descendantsGuarded (t : Arena) (k : Nat) : Guarded (List Nat) := do
  let _ ← t.look k id
  Walk.takeGuarded t t.size (.below k)

/-- All layers, in pre-order. -/
def allGuarded (t : Arena) : Guarded (List Nat) := Walk.takeGuarded t t.size (.below top)

/-! ## Children and ancestors

Readers that follow one kind of link.  They are bounded, and reaching the bound is a
`Fault.unfinished`. -/

/-- A layer and the siblings after it, at most so many. -/
def siblingsFromGuarded (t : Arena) : Nat → Option Nat → Guarded (List Nat)
  | _, none => .ok []
  | 0, some _ => .error .unfinished
  | n + 1, some k => do
    let next ← t.look k Node.nextSibling
    return k :: (← siblingsFromGuarded t n next)

/-- The children of a layer, in document order. -/
def childrenGuarded (t : Arena) (k : Nat) : Guarded (List Nat) := do
  t.siblingsFromGuarded t.size (← t.look k Node.firstChild)

/-- The number of steps to the top, at most the given number. -/
def climbGuarded (t : Arena) : Nat → Nat → Guarded Nat
  | 0, _ => .error .unfinished
  | n + 1, k => do
    match ← t.look k Node.parent with
    | none => return 0
    | some p => return (← climbGuarded t n p) + 1

/-- The number of layers above a layer. -/
def depthGuarded (t : Arena) (k : Nat) : Guarded Nat := t.climbGuarded t.size k

/-- Whether climbing from a layer, itself included, meets another within so many steps. -/
def meetsGuarded (t : Arena) (goal : Nat) : Nat → Nat → Guarded Bool
  | 0, _ => .error .unfinished
  | n + 1, k =>
    if k = goal then .ok true
    else do
      match ← t.look k Node.parent with
      | none => return false
      | some p => meetsGuarded t goal n p

/-- The parent of a layer that lies below `root`.  The root is looked at first. -/
def parentBelowGuarded (t : Arena) (k root : Nat) : Guarded (Option Nat) := do
  let _ ← t.look root id
  match ← t.look k Node.parent with
  | none => return none
  | some p => return if ← t.meetsGuarded root t.size p then some p else none

/-! ## Nothing fails in the arena of a tree

Each reader on the arena of a tree.  A place is found for the position that is asked about, and what
is known of places tells where the links lead. -/

variable {l : Layer} {q r : Place} {k root : Nat}

/-- Climbing from below the start of a walk gets back to the start. -/
theorem nextAboveGuarded_eq_ok (hq : q ∈ (Place.top l).all) (hr : r ∈ q.all) :
    ∀ n, r.position - q.position < n →
      (ofLayer l).nextAboveGuarded q.position n r.position
        = .ok ((ofLayer l).nextAbove q.position n r.position) := by
  refine Place.all_induction (motive := fun r => ∀ n, r.position - q.position < n →
    (ofLayer l).nextAboveGuarded q.position n r.position
      = .ok ((ofLayer l).nextAbove q.position n r.position)) q ?_ ?_ r hr
  · intro n hn
    obtain ⟨m, rfl⟩ : ∃ m, n = m + 1 := ⟨n - 1, by omega⟩
    rw [nextAboveGuarded, nextAbove, if_pos rfl, if_pos rfl]
  · intro r hr ih c hc n hn
    obtain ⟨m, rfl⟩ : ∃ m, n = m + 1 := ⟨n - 1, by omega⟩
    have hrc := Place.position_lt_of_mem_children hc
    have hqr := (Place.position_mem_all hr).1
    have hplace := Place.mem_all_trans hq (Place.mem_all_of_mem_children hr hc)
    have hlt := position_lt_size hplace
    rw [nextAboveGuarded, nextAbove, if_neg (by omega), if_neg (by omega), look_nextSibling hlt,
      ok_bind]
    cases (ofLayer l).nextSibling c.position with
    | some s => rfl
    | none =>
      dsimp only
      rw [look_parent hlt, ok_bind, parent_eq hplace, Place.parent_of_mem_children hc]
      exact ih m (by omega)

theorem afterGuarded_eq_ok (hq : q ∈ (Place.top l).all) (hr : r ∈ q.all) :
    (ofLayer l).afterGuarded q.position r.position
      = .ok ((ofLayer l).after q.position r.position) := by
  have hlt := position_lt_size (Place.mem_all_trans hq hr)
  rw [afterGuarded, after, look_firstChild hlt, ok_bind]
  cases (ofLayer l).firstChild r.position with
  | some c => rfl
  | none => exact nextAboveGuarded_eq_ok hq hr _ (by omega)

theorem takeGuarded_eq_ok (hq : q ∈ (Place.top l).all) : ∀ (n k : Nat), q.position ≤ k →
    q.position + q.layer.count - k ≤ n →
      Walk.takeGuarded (ofLayer l) n ⟨q.position, upTo (q.position + q.layer.count) k⟩
        = .ok (Walk.take (ofLayer l) n ⟨q.position, upTo (q.position + q.layer.count) k⟩)
  | n, k, hk, hn => by
    by_cases hlt : k < q.position + q.layer.count
    · obtain ⟨r, hr, rfl⟩ := Place.exists_of_position hk hlt
      obtain ⟨m, rfl⟩ : ∃ m, n = m + 1 := ⟨n - 1, by omega⟩
      have hrest := takeGuarded_eq_ok hq m (r.position + 1) (by omega) (by omega)
      rw [upTo, if_pos hlt, Walk.takeGuarded, afterGuarded_eq_ok hq hr, ok_bind, after_eq hq hr,
        hrest, Walk.take, Walk.step]
      dsimp only
      rw [after_eq hq hr]
      rfl
    · rw [upTo, if_neg hlt, Walk.takeGuarded]
      cases n <;> rfl

/-- **Walking a subtree** looks at layers only, and ends. -/
theorem walkGuarded_eq_ok (hq : q ∈ (Place.top l).all) :
    Walk.takeGuarded (ofLayer l) (ofLayer l).size (.below q.position)
      = .ok ((ofLayer l).descendants q.position) := by
  have hpos := q.layer.count_pos
  have hend := Place.end_le hq
  have hsize := size_ofLayer l
  simp only [Place.top] at hend
  have h := takeGuarded_eq_ok hq (ofLayer l).size q.position (Nat.le_refl _) (by omega)
  rw [upTo, if_pos (by omega)] at h
  exact h

theorem descendantsGuarded_eq_ok (h : k < (ofLayer l).size) :
    (ofLayer l).descendantsGuarded k = .ok ((ofLayer l).descendants k) := by
  obtain ⟨q, hq, rfl⟩ := exists_place h
  rw [descendantsGuarded, look_of_lt h, ok_bind, walkGuarded_eq_ok hq]

theorem allGuarded_eq_ok (l : Layer) : (ofLayer l).allGuarded = .ok (ofLayer l).all :=
  walkGuarded_eq_ok (Place.mem_all_self (Place.top l))

theorem Row.siblingsFromGuarded_eq_ok {t : Arena} {first : Option Nat} {ks : List Nat}
    (h : t.Row first ks) (hks : ∀ k ∈ ks, k < t.size) : ∀ {n : Nat}, ks.length ≤ n →
      t.siblingsFromGuarded n first = .ok ks := by
  induction h with
  | last => intro n _; rw [siblingsFromGuarded]
  | @next k ks _ ih =>
    intro n hn
    rw [List.forall_mem_cons] at hks
    cases n with
    | zero => simp at hn
    | succ n =>
      rw [siblingsFromGuarded, look_nextSibling hks.1, ok_bind,
        ih hks.2 (Nat.le_of_succ_le_succ hn)]
      rfl

/-- **Listing children** looks at layers only, and ends. -/
theorem childrenGuarded_eq_ok (h : k < (ofLayer l).size) :
    (ofLayer l).childrenGuarded k = .ok ((ofLayer l).children k) := by
  obtain ⟨q, hq, rfl⟩ := exists_place h
  have hks : ∀ k ∈ q.children.map Place.position, k < (ofLayer l).size := by
    intro k hk
    obtain ⟨c, hc, rfl⟩ := List.mem_map.mp hk
    exact position_lt_size (Place.mem_all_of_mem_children hq hc)
  rw [childrenGuarded, look_firstChild h, ok_bind, children_eq hq]
  exact (row_children hq).siblingsFromGuarded_eq_ok hks (length_children_le hq)

theorem lt_size_of_mem_children {c : Nat} (h : k < (ofLayer l).size)
    (hc : c ∈ (ofLayer l).children k) : c < (ofLayer l).size :=
  lt_size_of_parent ((mem_children_iff h).mp hc)

/-- Each step up goes to a smaller position, so the position bounds the steps. -/
theorem climbGuarded_eq_ok : ∀ (n k : Nat), k < n → k < (ofLayer l).size →
    (ofLayer l).climbGuarded n k = .ok ((ofLayer l).climb n k)
  | 0, _, hn, _ => absurd hn (Nat.not_lt_zero _)
  | n + 1, k, hn, hk => by
    rw [climbGuarded, climb, look_parent hk, ok_bind]
    cases hparent : (ofLayer l).parent k with
    | none => rfl
    | some p =>
      have hp := (encodes l).parent_lt k p hparent
      dsimp only
      rw [climbGuarded_eq_ok n p (by omega) (by omega)]
      rfl

theorem depthGuarded_eq_ok (h : k < (ofLayer l).size) :
    (ofLayer l).depthGuarded k = .ok ((ofLayer l).depth k) :=
  climbGuarded_eq_ok _ k h h

theorem meetsGuarded_eq_ok {goal : Nat} : ∀ (n k : Nat), k < n → k < (ofLayer l).size →
    (ofLayer l).meetsGuarded goal n k = .ok ((ofLayer l).meets goal n k)
  | 0, _, hn, _ => absurd hn (Nat.not_lt_zero _)
  | n + 1, k, hn, hk => by
    rw [meetsGuarded, meets, look_parent hk, ok_bind]
    split
    · rfl
    · cases hparent : (ofLayer l).parent k with
      | none => rfl
      | some p =>
        have hp := (encodes l).parent_lt k p hparent
        exact meetsGuarded_eq_ok n p (by omega) (by omega)

theorem parentBelowGuarded_eq_ok (hk : k < (ofLayer l).size) (hroot : root < (ofLayer l).size) :
    (ofLayer l).parentBelowGuarded k root = .ok ((ofLayer l).parentBelow k root) := by
  rw [parentBelowGuarded, parentBelow, look_of_lt hroot, ok_bind, look_parent hk, ok_bind]
  cases hparent : (ofLayer l).parent k with
  | none => rfl
  | some p =>
    have hp : p < (ofLayer l).size := Nat.lt_trans ((encodes l).parent_lt k p hparent) hk
    dsimp only
    rw [meetsGuarded_eq_ok _ p hp hp]
    rfl

end Arena

end MapLayers
