import MapLayers.Proofs.Flat.References
import MapLayers.Proofs.Flat.Sweeping

/-!
# Every entry is visited once

A sweep puts the children of an entry on its stack without asking whether they are marked.  It does
not have to ask: what has no parent is pending from the start, and everything else becomes pending
when its only parent is visited.  So an entry is visited or pending just when it has no parent or
its parent has been visited, and it is so only once (`Sweep.Swept`).  A visit keeps this whichever
of the pending entries it takes and wherever it puts the children (`Sweep.Swept.visit`), so nothing
here depends on the order of the stack.

Hence there are no more visits than entries (`Sweep.Swept.length_le`), whatever cycles their parents
form, and a sweep that goes on from anywhere comes to its end in time (`Sweep.Swept.exists_end`).
When nothing is pending any more, the marked entries are those from which one arrives at an entry
without a parent.

The step of the program, which takes the entry on top of the stack, is one of these visits
(`Sweep.visits_step`), and a run is several (`Sweep.exists_visitAll_run`).  The headline
(`Entry.sweepsOnce`) is about a flat list and all visiting orders at once; its witness has cycles of
one and of two entries, with a child below one of them.
-/

set_option autoImplicit false

namespace MapLayers

namespace Sweep

/-- One visit: some pending entry is taken and marked, and its children are pending with the others,
in whatever order. -/
structure Visits (children : Array (List Nat)) (i : Nat) (s s' : Sweep) : Prop where
  taken : i ∈ s.pending
  pending : s'.pending.Perm (children.getD i [] ++ s.pending.erase i)
  marked : s'.marked = s.marked.setIfInBounds i true

/-- Visits to some entries, one after the other. -/
inductive VisitAll (children : Array (List Nat)) : List Nat → Sweep → Sweep → Prop
  | done {s : Sweep} : VisitAll children [] s s
  | visit {i : Nat} {is : List Nat} {s s' s'' : Sweep} (first : Visits children i s s')
      (rest : VisitAll children is s' s'') : VisitAll children (i :: is) s s''

/-- A sweep of a list of parents has come to a state by visits to the given entries, from the
entries without a parent on. -/
def ComesTo (parents : List (Option Nat)) (visited : List Nat) (s : Sweep) : Prop :=
  VisitAll (childTable parents) visited (start parents.length (positionsUnder parents none)) s

/-- What is so after the given visits, counted from the start of a sweep. -/
structure Swept (parents : List (Option Nat)) (visited : List Nat) (s : Sweep) : Prop where
  /-- Nothing is visited twice, or pending twice, or pending when it has been visited. -/
  nodup : (visited ++ s.pending).Nodup
  /-- An entry has become pending just when it has no parent or its parent has been visited. -/
  mem_iff : ∀ i, i ∈ visited ++ s.pending ↔
    parents[i]? = some none ∨ ∃ p ∈ visited, parents[i]? = some (some p)
  /-- It hangs below an entry without a parent. -/
  hangs : ∀ i ∈ visited ++ s.pending, Hangs parents i
  /-- What has been visited is marked. -/
  marked : s.marked = mark (Array.replicate parents.length false) visited

variable {children : Array (List Nat)} {parents : List (Option Nat)} {visited is : List Nat}
  {s s' : Sweep} {i : Nat}

/-- A sweep starts with the entries without a parent. -/
theorem swept_start (parents : List (Option Nat)) :
    Swept parents [] (start parents.length (positionsUnder parents none)) where
  nodup := nodup_positionsUnder parents none
  mem_iff i := by
    show i ∈ positionsUnder parents none ↔ _
    rw [mem_positionsUnder]
    simp
  hangs i hi := Hangs.of_root (mem_positionsUnder.mp hi)
  marked := rfl

/-! ## One visit

A visit takes an entry from those that are pending, marks it and adds its children to the pending
ones.  Its children were not pending before, as they have no other parent, so each entry becomes
pending once. -/

/-- A visit adds the children of an entry to what has been visited or is pending. -/
theorem Visits.perm (h : Visits children i s s') (visited : List Nat) :
    (visited ++ [i] ++ s'.pending).Perm (children.getD i [] ++ (visited ++ s.pending)) := by
  have hothers : (visited ++ [i] ++ s.pending.erase i).Perm (visited ++ s.pending) := by
    rw [List.append_assoc]
    exact (List.perm_cons_erase h.taken).symm.append_left visited
  exact (h.pending.append_left _).trans
    ((List.perm_append_comm_assoc _ _ _).trans (hothers.append_left _))

/-- The children of a pending entry have no other parent, so they are not pending yet. -/
theorem Swept.not_mem_of_child (h : Swept parents visited s) (hi : i ∈ s.pending) {c : Nat}
    (hc : parents[c]? = some (some i)) : c ∉ visited ++ s.pending := by
  intro hmem
  rcases (h.mem_iff c).mp hmem with hnone | ⟨p, hp, hsome⟩
  · rw [hc] at hnone
    cases hnone
  · rw [hc] at hsome
    cases hsome
    exact (List.nodup_append.mp h.nodup).2.2 i hp i hi rfl

/-- **A visit keeps what is so during a sweep.** -/
theorem Swept.visit (h : Swept parents visited s) (hvisit : Visits (childTable parents) i s s') :
    Swept parents (visited ++ [i]) s' := by
  have hperm := hvisit.perm visited
  have hi := h.hangs i (List.mem_append_right visited hvisit.taken)
  have hchild : ∀ c, c ∈ (childTable parents).getD i [] ↔ parents[c]? = some (some i) := by
    intro c
    exact mem_childrenOf.trans (and_iff_right hi.lt_length)
  constructor
  case nodup =>
    rw [hperm.nodup_iff, List.nodup_append]
    refine ⟨(listedOnce_childrenOf parents).nodup i, h.nodup, ?_⟩
    rintro c hc d hd rfl
    exact h.not_mem_of_child hvisit.taken ((hchild c).mp hc) hd
  case mem_iff =>
    intro c
    rw [hperm.mem_iff, List.mem_append, h.mem_iff, hchild]
    simp only [List.mem_append, List.mem_singleton, or_and_right, exists_or, exists_eq_left]
    exact or_left_comm.trans (or_congr_right or_comm)
  case hangs =>
    intro c hc
    rcases List.mem_append.mp (hperm.mem_iff.mp hc) with hc | hc
    · exact hi.of_parent hi.lt_length ((hchild c).mp hc)
    · exact h.hangs c hc
  case marked =>
    rw [hvisit.marked, h.marked, mark_append]
    rfl

/-! ## All visits -/

/-- What is so during a sweep is so after any number of visits. -/
theorem Swept.visitAll (h : Swept parents visited s)
    (hvisits : VisitAll (childTable parents) is s s') : Swept parents (visited ++ is) s' := by
  induction hvisits generalizing visited with
  | done =>
    rw [List.append_nil]
    exact h
  | visit first _ ih =>
    rw [List.append_cons]
    exact ih (h.visit first)

theorem ComesTo.swept (h : ComesTo parents visited s) : Swept parents visited s :=
  (swept_start parents).visitAll h

theorem VisitAll.append {js : List Nat} {s'' : Sweep} (h : VisitAll children is s s')
    (h' : VisitAll children js s' s'') : VisitAll children (is ++ js) s s'' := by
  induction h with
  | done => exact h'
  | visit first _ ih => exact .visit first (ih h')

namespace Swept

variable (h : Swept parents visited s)

include h

/-- There are no more entries visited and pending than there are entries. -/
theorem length_le : (visited ++ s.pending).length ≤ parents.length :=
  length_le_of_nodup h.nodup fun i hi => (h.hangs i hi).lt_length

theorem marked_iff (hi : i < parents.length) : s.marked[i]? = some true ↔ i ∈ visited := by
  rw [h.marked, getElem_mark _ (by simpa using hi)]
  simp

/-- **When nothing is pending, what hangs below an entry without a parent has been visited.** -/
theorem mem_visited_iff (hdone : s.pending = []) : i ∈ visited ↔ Hangs parents i := by
  have hmem := h.mem_iff
  rw [hdone, List.append_nil] at hmem
  constructor
  · intro hi
    exact h.hangs i (List.mem_append_left _ hi)
  · rintro ⟨root, hroot, k, hk⟩
    induction hk with
    | here => exact (hmem root).mpr (Or.inl (mem_positionsUnder.mp hroot))
    | child _ hc ih => exact (hmem _).mpr (Or.inr ⟨_, ih, (mem_childrenOf.mp hc).2⟩)

end Swept

/-! ## Running

The stack is one way to choose the pending entry.  A step of the program is a visit, and a run is as
many visits as there are entries or until nothing is pending, whichever comes first. -/

/-- A step visits the first of the pending entries. -/
theorem visits_step {rest : List Nat} (h : s.pending = i :: rest) :
    Visits children i s (s.step children) := by
  have hstep : s.step children = ⟨s.marked.setIfInBounds i true, children.getD i [] ++ rest⟩ := by
    rw [step, h]
  refine ⟨by rw [h]; exact List.mem_cons_self, ?_, by rw [hstep]⟩
  rw [hstep, h, List.erase_cons_head]

/-- Taking steps means to visit one entry at each, until nothing is pending. -/
theorem exists_visitAll_run (children : Array (List Nat)) : ∀ (n : Nat) (s : Sweep),
    ∃ is, VisitAll children is s (run children n s) ∧
      (is.length = n ∨ (run children n s).pending = [])
  | 0, s => ⟨[], .done, Or.inl rfl⟩
  | n + 1, ⟨marked, []⟩ => by
    rw [run_nil]
    exact ⟨[], .done, Or.inr rfl⟩
  | n + 1, ⟨marked, i :: rest⟩ => by
    obtain ⟨is, hvisits, hend⟩ := exists_visitAll_run children n (step children ⟨marked, i :: rest⟩)
    refine ⟨i :: is, .visit (visits_step rfl) hvisits, hend.imp_left fun hlen => ?_⟩
    rw [List.length_cons, hlen]

/-- **A sweep that takes as many steps as there are entries is at its end**, from wherever it goes
on. -/
theorem Swept.exists_end (h : Swept parents visited s) :
    ∃ is, VisitAll (childTable parents) is s (run (childTable parents) parents.length s) ∧
      (run (childTable parents) parents.length s).pending = [] := by
  obtain ⟨is, hvisits, hend⟩ := exists_visitAll_run (childTable parents) parents.length s
  refine ⟨is, hvisits, hend.elim (fun hlen => ?_) id⟩
  have hle := (h.visitAll hvisits).length_le
  rw [List.length_append, List.length_append, hlen] at hle
  exact List.eq_nil_of_length_eq_zero (by omega)

end Sweep

namespace Entry

open Sweep

/-- The sweep of the entries of a list, when it takes the pending entries in any order. -/
structure SweepsOnce (es : List Entry) (parents : List (Option Nat)) : Prop where
  /-- It starts with the entries without a parent. -/
  starts : ∀ (i : Nat) (e : Entry), es[i]? = some e →
    (i ∈ positionsUnder parents none ↔ e.parent = none)
  /-- What it puts on for an entry are those whose parent has the name of that entry. -/
  children : ∀ (p i : Nat) (e : Entry), es[i]? = some e → (i ∈ (childTable parents).getD p [] ↔
    ∃ d name, es[p]? = some d ∧ e.parent = some name ∧ d.attributes.name = some name)
  /-- It visits no entry twice, -/
  once : ∀ is s, ComesTo parents is s → is.Nodup
  /-- so there are no more visits than entries. -/
  bounded : ∀ is s, ComesTo parents is s → is.length ≤ es.length
  /-- However it has begun, it can go on until nothing is pending. -/
  ends : ∀ is s, ComesTo parents is s → ∃ js s', ComesTo parents (is ++ js) s' ∧ s'.pending = []
  /-- When nothing is pending, the entries are marked that lead to an entry without a parent. -/
  marks : ∀ is s, ComesTo parents is s → s.pending = [] → s.marked.size = es.length ∧
    ∀ (i : Nat) (e : Entry), es[i]? = some e → (s.marked[i]? = some true ↔ Arrives es e)
  /-- To take the first of the pending entries each time, as many times as there are entries, is one
  way to do it, and leaves nothing pending. -/
  runs : ∃ is, ComesTo parents is (Sweep.ofParents parents) ∧ (Sweep.ofParents parents).pending = []

variable {es : List Entry} {parents : List (Option Nat)}

theorem sweepsOnce_of_parentPositions (h : parentPositions es = .ok parents) :
    SweepsOnce es parents where
  starts i e hi := by
    rw [← parents_eq_none_iff h hi]
    exact mem_positionsUnder
  children p i e hi := by
    rw [← parents_eq_some_iff_names h hi]
    refine mem_childrenOf.trans (and_iff_right_of_imp fun hparent => ?_)
    obtain ⟨d, name, hd, -, -⟩ := (parents_eq_some_iff_names h hi).mp hparent
    rw [length_parents h]
    exact (List.getElem?_eq_some_iff.mp hd).1
  once is s hs := (List.nodup_append.mp hs.swept.nodup).1
  bounded is s hs := by
    have hle := hs.swept.length_le
    rw [List.length_append, length_parents h] at hle
    exact Nat.le_of_add_right_le hle
  ends is s hs := by
    obtain ⟨js, hjs, hend⟩ := hs.swept.exists_end
    exact ⟨js, _, hs.append hjs, hend⟩
  marks is s hs hdone := by
    have hlen := length_parents h
    refine ⟨by rw [hs.swept.marked, size_mark, Array.size_replicate, hlen], ?_⟩
    intro i e hi
    have hlt : i < parents.length := by
      rw [hlen]
      exact (List.getElem?_eq_some_iff.mp hi).1
    rw [hs.swept.marked_iff hlt, hs.swept.mem_visited_iff hdone, hangs_iff h hi]
  runs := (swept_start parents).exists_end

/-- **A sweep visits every entry at most once and marks those that lead to an entry without a
parent**, whatever cycles the others are on. -/
theorem sweepsOnce (es : List Entry) (h : ∀ e ∈ es, Resolves es e) :
    ∃ parents, parentPositions es = .ok parents ∧ SweepsOnce es parents := by
  obtain ⟨parents, hparents⟩ := exists_parentPositions_iff.mpr h
  exact ⟨parents, hparents, sweepsOnce_of_parentPositions hparents⟩

/-- A root with a child, an entry that is its own parent, and two that are each other's, with a
child below them. -/
def withCycles : List Entry :=
  [{ attributes := { name := some "child" }, parent := some "root" },
    { attributes := { name := some "self" }, parent := some "self" },
    { attributes := { name := some "root" } },
    { attributes := { name := some "one" }, parent := some "other" },
    { attributes := { name := some "other" }, parent := some "one" },
    { parent := some "one" }]

theorem sweepsOnce_withCycles : (∀ e ∈ withCycles, Resolves withCycles e) ∧
    (∃ parents, parentPositions withCycles = .ok parents ∧ SweepsOnce withCycles parents) ∧
      parentPositions withCycles = .ok [some 2, some 1, none, some 4, some 3, some 3] ∧
        Sweep.ofParents [some 2, some 1, none, some 4, some 3, some 3]
          = ⟨#[true, false, true, false, false, false], []⟩ := by
  have hparents : parentPositions withCycles
      = .ok [some 2, some 1, none, some 4, some 3, some 3] := by decide +kernel
  have hresolve := exists_parentPositions_iff.mp ⟨_, hparents⟩
  exact ⟨hresolve, sweepsOnce withCycles hresolve, hparents, by decide +kernel⟩

end Entry

end MapLayers
