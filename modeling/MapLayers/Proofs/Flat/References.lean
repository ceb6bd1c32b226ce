import MapLayers.Proofs.Flat.Forest

/-!
# References between entries

An entry refers to its parent by name, and a name can be missing from the list or be there more than
once.  What it means that a reference is right (`Entry.Resolves`: it names exactly one entry), and
that the references lead from an entry to one without a parent (`Entry.Arrives`), is said here about
names alone, with no word about positions.

Nesting works with a list of parents by position, and finds these in a table of names, which has for
every name the positions of the entries with it (`Entry.positionsNamed`).  It agrees with the names:

* there is one exactly when all references are right (`Entry.exists_parentPositions_iff`);
* otherwise it is the first wrong one that is reported (`Entry.parentPositions_eq_error_iff`), as
  unknown or as ambiguous;
* in the list, the parent of an entry is the one entry of the name
  (`Entry.parents_eq_some_iff_names`);
* what hangs below a position without a parent is what arrives there by name (`Entry.hangs_iff`).

So whatever is proved about lists of parents can be said about names, and that is the form in which
the results about flat lists are stated.
-/

set_option autoImplicit false

namespace MapLayers

namespace Entry

/-- How many entries have a name. -/
def holders (es : List Entry) (name : String) : Nat :=
  es.countP fun e => e.attributes.name = some name

/-- The parent of an entry, if it has one, is the name of exactly one entry. -/
def Resolves (es : List Entry) (e : Entry) : Prop :=
  ∀ name, e.parent = some name → holders es name = 1

/-- From an entry, parent after parent, one arrives at an entry without a parent. -/
inductive Arrives (es : List Entry) : Entry → Prop
  | root {e : Entry} : e.parent = none → Arrives es e
  | under {e p : Entry} {name : String} : e.parent = some name → p ∈ es →
    p.attributes.name = some name → Arrives es p → Arrives es e

variable {es rest : List Entry} {e : Entry} {name : String} {start k i : Nat}
  {named : String → List Nat} {parents : List (Option Nat)} {error : FlatError}

/-! ## One reference -/

theorem length_positionsNamed : (positionsNamed start es name).length = holders es name := by
  induction es generalizing start with
  | nil => rfl
  | cons e es ih =>
    rw [holders] at ih ⊢
    by_cases h : e.attributes.name = some name
    · rw [positionsNamed, if_pos (isNamed_iff.mpr h), List.length_cons, ih,
        List.countP_cons_of_pos (by simpa using h)]
    · rw [positionsNamed, if_neg (isNamed_iff.not.mpr h), ih,
        List.countP_cons_of_neg (by simpa using h)]

theorem parentPosition_eq_none_iff : parentPosition named k e = .ok none ↔ e.parent = none := by
  rw [parentPosition]
  cases e.parent with
  | none => simp
  | some name =>
    simp only [reduceCtorEq, iff_false]
    rcases named name with _ | ⟨p, _ | ⟨q, qs⟩⟩ <;> simp

theorem parentPosition_eq_some_iff {p : Nat} : parentPosition named k e = .ok (some p) ↔
    ∃ name, e.parent = some name ∧ named name = [p] := by
  rw [parentPosition]
  cases e.parent with
  | none => simp
  | some name =>
    simp only [Option.some.injEq, exists_eq_left']
    rcases named name with _ | ⟨q, _ | ⟨r, rs⟩⟩ <;> simp

theorem exists_parentPosition_iff :
    (∃ p, parentPosition (positionsNamed 0 es) k e = .ok p) ↔ Resolves es e := by
  have hlen : ∀ name, (positionsNamed 0 es name).length = holders es name :=
    fun _ => length_positionsNamed
  rw [Resolves, parentPosition]
  cases e.parent with
  | none => simp
  | some name =>
    simp only [Option.some.injEq, forall_eq', ← hlen]
    rcases positionsNamed 0 es name with _ | ⟨p, _ | ⟨q, qs⟩⟩ <;> simp

theorem parentPosition_eq_error_iff : parentPosition (positionsNamed 0 es) k e = .error error ↔
    ∃ name, e.parent = some name ∧
      (holders es name = 0 ∧ error = .dangling (e.displayName k) name ∨
        2 ≤ holders es name ∧ error = .ambiguous name) := by
  have hlen : ∀ name, (positionsNamed 0 es name).length = holders es name :=
    fun _ => length_positionsNamed
  rw [parentPosition]
  cases e.parent with
  | none => simp
  | some name =>
    simp only [Option.some.injEq, exists_eq_left', ← hlen]
    rcases positionsNamed 0 es name with _ | ⟨p, _ | ⟨q, qs⟩⟩ <;> simp [eq_comm]

/-! ## All references -/

theorem parentPositionsFrom_eq_ok (h : parentPositionsFrom named start rest = .ok parents) :
    parents.length = rest.length ∧ ∀ k e, rest[k]? = some e →
      ∃ p, parents[k]? = some p ∧ parentPosition named (start + k) e = .ok p := by
  induction rest generalizing start parents with
  | nil =>
    cases h
    simp
  | cons e rest ih =>
    rw [parentPositionsFrom] at h
    split at h
    · cases h
    · rename_i p hp
      split at h
      · cases h
      · rename_i ps hps
        cases h
        obtain ⟨hlen, hall⟩ := ih hps
        refine ⟨by rw [List.length_cons, List.length_cons, hlen], fun k d hd => ?_⟩
        cases k with
        | zero =>
          cases hd
          exact ⟨p, rfl, hp⟩
        | succ k =>
          have hk : start + (k + 1) = start + 1 + k := by omega
          rw [hk]
          exact hall k d hd

theorem parentPositionsFrom_eq_error_iff :
    parentPositionsFrom (positionsNamed 0 es) start rest = .error error ↔
      ∃ before e after, rest = before ++ e :: after ∧ (∀ d ∈ before, Resolves es d) ∧
        parentPosition (positionsNamed 0 es) (start + before.length) e = .error error := by
  induction rest generalizing start with
  | nil => simp [parentPositionsFrom]
  | cons e rest ih =>
    have hsplit : (∃ before d after, e :: rest = before ++ d :: after ∧
        (∀ x ∈ before, Resolves es x) ∧
          parentPosition (positionsNamed 0 es) (start + before.length) d = .error error) ↔
        parentPosition (positionsNamed 0 es) start e = .error error ∨
          Resolves es e ∧
            parentPositionsFrom (positionsNamed 0 es) (start + 1) rest = .error error := by
      rw [ih]
      refine ⟨?_, ?_⟩
      · rintro ⟨before, d, after, heq, hbefore, herror⟩
        cases before with
        | nil =>
          cases heq
          exact Or.inl herror
        | cons x before =>
          cases heq
          rw [List.forall_mem_cons] at hbefore
          refine Or.inr ⟨hbefore.1, before, d, after, rfl, hbefore.2, ?_⟩
          rwa [List.length_cons, Nat.add_comm before.length, ← Nat.add_assoc] at herror
      · rintro (herror | ⟨he, before, d, after, rfl, hbefore, herror⟩)
        · exact ⟨[], e, rest, rfl, by simp, herror⟩
        · refine ⟨e :: before, d, after, rfl, List.forall_mem_cons.mpr ⟨he, hbefore⟩, ?_⟩
          rwa [List.length_cons, Nat.add_comm before.length, ← Nat.add_assoc]
    rw [hsplit, ← exists_parentPosition_iff (k := start), parentPositionsFrom]
    cases parentPosition (positionsNamed 0 es) start e with
    | error err => simp
    | ok p => cases parentPositionsFrom (positionsNamed 0 es) (start + 1) rest <;> simp

/-- Each parent in the list is the one that its entry refers to. -/
theorem parentPositions_eq_ok (h : parentPositions es = .ok parents) :
    parents.length = es.length ∧ ∀ k e, es[k]? = some e →
      ∃ p, parents[k]? = some p ∧ parentPosition (positionsNamed 0 es) k e = .ok p := by
  rw [parentPositions_eq] at h
  simpa only [Nat.zero_add] using parentPositionsFrom_eq_ok h

/-- **It is the first wrong reference that is reported.** -/
theorem parentPositions_eq_error_iff : parentPositions es = .error error ↔
    ∃ before e after, es = before ++ e :: after ∧ (∀ d ∈ before, Resolves es d) ∧
      parentPosition (positionsNamed 0 es) before.length e = .error error := by
  rw [parentPositions_eq, parentPositionsFrom_eq_error_iff]
  simp only [Nat.zero_add]

/-- **There is a list of parents exactly when all references are right.** -/
theorem exists_parentPositions_iff :
    (∃ parents, parentPositions es = .ok parents) ↔ ∀ e ∈ es, Resolves es e := by
  refine ⟨?_, ?_⟩
  · rintro ⟨parents, hparents⟩ e he
    obtain ⟨k, hk⟩ := List.mem_iff_getElem?.mp he
    obtain ⟨p, -, hp⟩ := (parentPositions_eq_ok hparents).2 k e hk
    exact exists_parentPosition_iff.mp ⟨p, hp⟩
  · intro hall
    cases h : parentPositions es with
    | ok parents => exact ⟨parents, rfl⟩
    | error error =>
      obtain ⟨before, e, after, heq, -, herror⟩ := parentPositions_eq_error_iff.mp h
      have he : e ∈ es := by
        rw [heq]
        exact List.mem_append_right before List.mem_cons_self
      obtain ⟨p, hp⟩ := (exists_parentPosition_iff (k := before.length)).mpr (hall e he)
      rw [hp] at herror
      cases herror

section

variable (h : parentPositions es = .ok parents)

include h

theorem length_parents : parents.length = es.length := (parentPositions_eq_ok h).1

theorem parents_eq_none_iff (hi : es[i]? = some e) : parents[i]? = some none ↔ e.parent = none := by
  obtain ⟨p, hp, hposition⟩ := (parentPositions_eq_ok h).2 i e hi
  have hnone : parentPosition (positionsNamed 0 es) i e = .ok none ↔ _ :=
    parentPosition_eq_none_iff
  rw [hp, ← hnone, hposition]
  simp

theorem parents_eq_some_iff {q : Nat} (hi : es[i]? = some e) : parents[i]? = some (some q) ↔
    ∃ name, e.parent = some name ∧ positionsNamed 0 es name = [q] := by
  obtain ⟨p, hp, hposition⟩ := (parentPositions_eq_ok h).2 i e hi
  have hsome : parentPosition (positionsNamed 0 es) i e = .ok (some q) ↔ _ :=
    parentPosition_eq_some_iff
  rw [hp, ← hsome, hposition]
  simp

/-- A parent by position is a parent by name. -/
theorem parents_eq_some_iff_names {q : Nat} (hi : es[i]? = some e) :
    parents[i]? = some (some q) ↔
      ∃ p name, es[q]? = some p ∧ e.parent = some name ∧ p.attributes.name = some name := by
  rw [parents_eq_some_iff h hi]
  refine ⟨?_, ?_⟩
  · rintro ⟨name, hname, hnamed⟩
    have hmem : q ∈ positionsNamed 0 es name := by
      rw [hnamed]
      exact List.mem_singleton_self q
    obtain ⟨k, p, rfl, hp, hpname⟩ := mem_positionsNamed.mp hmem
    rw [Nat.zero_add]
    exact ⟨p, name, hp, hname, hpname⟩
  · rintro ⟨p, name, hp, hname, hpname⟩
    have hresolves := exists_parentPositions_iff.mp ⟨parents, h⟩ e (List.mem_of_getElem? hi)
    have hlen : (positionsNamed 0 es name).length = 1 :=
      length_positionsNamed.trans (hresolves name hname)
    obtain ⟨r, hr⟩ := List.length_eq_one_iff.mp hlen
    have hmem : q ∈ positionsNamed 0 es name :=
      mem_positionsNamed.mpr ⟨q, p, (Nat.zero_add q).symm, hp, hpname⟩
    rw [hr, List.mem_singleton] at hmem
    subst hmem
    exact ⟨name, hname, hr⟩

/-- **Hanging below a position without a parent is arriving there by name.** -/
theorem hangs_iff (hi : es[i]? = some e) : Hangs parents i ↔ Arrives es e := by
  refine ⟨?_, ?_⟩
  · rintro ⟨root, hroot, k, hk⟩
    induction hk generalizing e with
    | here => exact .root ((parents_eq_none_iff h hi).mp (mem_positionsUnder.mp hroot))
    | child _ hc ih =>
      have hparent := (mem_childrenOf.mp hc).2
      obtain ⟨p, name, hp, hname, hpname⟩ := (parents_eq_some_iff_names h hi).mp hparent
      exact .under hname (List.mem_of_getElem? hp) hpname (ih hp)
  · intro harrives
    induction harrives generalizing i with
    | root hnone => exact .of_root ((parents_eq_none_iff h hi).mpr hnone)
    | @under e p name hname hp hpname _ ih =>
      obtain ⟨q, hq⟩ := List.mem_iff_getElem?.mp hp
      have hlt : q < parents.length := by
        rw [length_parents h]
        exact (List.getElem?_eq_some_iff.mp hq).1
      exact .of_parent (ih hq) hlt
        ((parents_eq_some_iff_names h hi).mpr ⟨p, name, hq, hname, hpname⟩)

end

end Entry

end MapLayers
