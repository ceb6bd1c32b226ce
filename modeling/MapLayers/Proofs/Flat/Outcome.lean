import MapLayers.Flat.Nesting
import MapLayers.Proofs.Flat.Assembling
import MapLayers.Proofs.Flat.References
import MapLayers.Proofs.Flat.Sweeping

/-!
# When a flat list nests

A flat list fails to nest in five ways, and `Entry.Fails` says which of them applies, by names alone
and in the order in which they are looked for.  Nesting gives an error exactly when the list fails
with it (`Entry.nest_eq_error_iff`), and succeeds exactly when the list is not empty, every
reference names one entry, and every entry leads to one without a parent (`Entry.exists_nest_iff`).

A list from all of whose entries one arrives somewhere has an entry without a parent
(`Entry.exists_root`), which is why the last condition leaves no room for the error of a list
without a root.  A list in which every entry has a parent, all of them right, fails with just that
error, although it has a cycle too: the roots are looked for first.

The loops on the way have bounds, which are not part of what they do: the stack of the sweep is
empty in time, and the frames of the assembly close in time (`Entry.loopsEnd`).
`Entry.nest_outcome` is all of this in one statement.
-/

set_option autoImplicit false

namespace MapLayers

namespace Entry

/-- What is wrong with a list, if anything. -/
inductive Fails (es : List Entry) : FlatError → Prop
  /-- There is no entry. -/
  | empty : es = [] → Fails es .empty
  /-- The first wrong reference names no entry. -/
  | dangling {before after : List Entry} {e : Entry} {name : String} :
    es = before ++ e :: after → (∀ d ∈ before, Resolves es d) → e.parent = some name →
      holders es name = 0 → Fails es (.dangling (e.displayName before.length) name)
  /-- The first wrong reference names several entries. -/
  | ambiguous {before after : List Entry} {e : Entry} {name : String} :
    es = before ++ e :: after → (∀ d ∈ before, Resolves es d) → e.parent = some name →
      2 ≤ holders es name → Fails es (.ambiguous name)
  /-- The references are right, but all entries have one. -/
  | noRoot : es ≠ [] → (∀ e ∈ es, Resolves es e) → (∀ e ∈ es, e.parent ≠ none) → Fails es .noRoot
  /-- The references are right and not all entries have one, but from this entry, and from none
  before it, they do not lead to an entry without. -/
  | cycle {before after : List Entry} {e : Entry} :
    es = before ++ e :: after → (∀ d ∈ es, Resolves es d) → (∃ d ∈ es, d.parent = none) →
      (∀ d ∈ before, Arrives es d) → ¬ Arrives es e →
        Fails es (.cycle (e.displayName before.length))

/-- The loops over a list of parents end, whatever is done about their bounds: nothing is left to
visit after the sweep, and what assembling gives is what the frames close with. -/
structure LoopsEnd (parents : List (Option Nat)) : Prop where
  sweep : (Sweep.ofParents parents).pending = []
  assembly : ∀ root ∈ positionsUnder parents none, ∀ slots : Slots, slots.size = parents.length →
    ∃ n ≤ 2 * slots.size + 1, Closes (childTable parents) n [⟨root, []⟩] slots
      (assemble (childTable parents) root slots)

theorem loopsEnd (parents : List (Option Nat)) : LoopsEnd parents where
  sweep := by
    obtain ⟨ts, h⟩ := exists_isForest parents
    rw [h.ofParents_eq]
  assembly root hroot slots hsize := by
    obtain ⟨t, rfl, hfollows⟩ := Sprout.exists_follows (listedOnce_childrenOf parents)
      (fun _ => childrenOf_of_le) ((apart_roots parents).of_mem hroot)
    have hnd := Sprout.nodup_positions (listedOnce_childrenOf parents) hfollows
      ((apart_roots parents).of_mem hroot)
    have hlen : t.positions.length ≤ slots.size := by
      rw [hsize]
      refine length_le_of_nodup hnd fun i hi => ?_
      obtain ⟨k, hk⟩ := Sprout.below_of_mem hfollows hi
      exact Hangs.lt_length ⟨t.position, hroot, k, hk⟩
    rw [Sprout.assemble_eq hfollows hnd hlen]
    exact ⟨_, by omega, Sprout.closes hfollows hnd⟩

variable {es : List Entry} {top : Option Attributes} {error : FlatError}
  {parents : List (Option Nat)} {l : Layer}

/-! ## The stages of nesting

The error of each stage, given that the stages before it have none: an empty list, a wrong
reference, a list without a root, an entry that does not arrive. -/

theorem nest_of_error (hne : es ≠ []) (h : parentPositions es = .error error) :
    nest top es = .error error := by
  rw [nest, if_neg (by simpa using hne), h]

theorem nest_of_ok (hne : es ≠ []) (h : parentPositions es = .ok parents) :
    nest top es = if (positionsUnder parents none).isEmpty then .error .noRoot
      else match (Sweep.ofParents parents).firstUnmarked with
        | some i => .error (.cycle ((es.getD i {}).displayName i))
        | none => .ok (gather es parents top (positionsUnder parents none)) := by
  have hnil : ¬ es.isEmpty = true := by simpa using hne
  have hnest : nest top es = _ := if_neg hnil
  rw [h] at hnest
  exact hnest

/-- There is no root when every entry has a parent. -/
theorem roots_isEmpty_iff (h : parentPositions es = .ok parents) :
    (positionsUnder parents none).isEmpty = true ↔ ∀ e ∈ es, e.parent ≠ none := by
  rw [List.isEmpty_iff, List.eq_nil_iff_forall_not_mem]
  refine ⟨?_, ?_⟩
  · intro hnone e he hparent
    obtain ⟨i, hi⟩ := List.mem_iff_getElem?.mp he
    exact hnone i (mem_positionsUnder.mpr ((parents_eq_none_iff h hi).mpr hparent))
  · intro hall i hi
    have hroot := mem_positionsUnder.mp hi
    have hlt : i < es.length := by
      rw [← length_parents h]
      exact (List.getElem?_eq_some_iff.mp hroot).1
    have he : es[i]? = some es[i] := List.getElem?_eq_getElem hlt
    exact hall es[i] (List.getElem_mem hlt) ((parents_eq_none_iff h he).mp hroot)

/-- The sweep leaves nothing unmarked when all entries arrive. -/
theorem firstUnmarked_eq_none_iff_arrives (h : parentPositions es = .ok parents) :
    (Sweep.ofParents parents).firstUnmarked = none ↔ ∀ e ∈ es, Arrives es e := by
  rw [firstUnmarked_eq_none_iff, length_parents h]
  refine ⟨?_, ?_⟩
  · intro hall e he
    obtain ⟨i, hi⟩ := List.mem_iff_getElem?.mp he
    exact (hangs_iff h hi).mp (hall i (List.getElem?_eq_some_iff.mp hi).1)
  · intro hall i hi
    exact (hangs_iff h (List.getElem?_eq_getElem hi)).mpr (hall es[i] (List.getElem_mem hi))

/-- What it leaves unmarked first is the first entry that does not arrive. -/
theorem firstUnmarked_eq_some_iff_arrives (h : parentPositions es = .ok parents) {i : Nat} :
    (Sweep.ofParents parents).firstUnmarked = some i ↔
      ∃ before e after, es = before ++ e :: after ∧ before.length = i ∧
        ¬ Arrives es e ∧ ∀ d ∈ before, Arrives es d := by
  rw [firstUnmarked_eq_some_iff, length_parents h]
  refine ⟨?_, ?_⟩
  · rintro ⟨hlt, hi, hbefore⟩
    refine ⟨es.take i, es[i], es.drop (i + 1), ?_, ?_, ?_, ?_⟩
    · rw [List.getElem_cons_drop, List.take_append_drop]
    · rw [List.length_take, Nat.min_eq_left (Nat.le_of_lt hlt)]
    · exact fun harrives => hi ((hangs_iff h (List.getElem?_eq_getElem hlt)).mpr harrives)
    · intro d hd
      obtain ⟨j, hj⟩ := List.mem_iff_getElem?.mp hd
      rw [List.getElem?_take] at hj
      split at hj
      · rename_i hji
        exact (hangs_iff h hj).mp (hbefore j hji)
      · cases hj
  · rintro ⟨before, e, after, heq, rfl, he, hbefore⟩
    have hi : es[before.length]? = some e := by
      rw [heq, List.getElem?_append_right (Nat.le_refl _), Nat.sub_self]
      rfl
    refine ⟨(List.getElem?_eq_some_iff.mp hi).1, fun hhangs => he ((hangs_iff h hi).mp hhangs), ?_⟩
    intro j hj
    have hjes : es[j]? = some before[j] := by
      rw [heq, List.getElem?_append_left hj, List.getElem?_eq_getElem hj]
    exact (hangs_iff h hjes).mpr (hbefore _ (List.getElem_mem hj))

/-- What is known when nesting succeeds. -/
theorem parents_of_nest (h : nest top es = .ok l) : es ≠ [] ∧ ∃ parents,
    parentPositions es = .ok parents ∧ (Sweep.ofParents parents).firstUnmarked = none ∧
      l = gather es parents top (positionsUnder parents none) := by
  have hne : es ≠ [] := by
    rintro rfl
    cases h
  refine ⟨hne, ?_⟩
  cases hparents : parentPositions es with
  | error error =>
    rw [nest_of_error hne hparents] at h
    cases h
  | ok parents =>
    rw [nest_of_ok hne hparents] at h
    split at h
    · cases h
    · split at h
      · cases h
      · rename_i hnone
        cases h
        exact ⟨parents, rfl, hnone, rfl⟩

/-! ## The outcome

The five errors exclude each other, and if none of them applies there is a layer.  So nesting has
the outcome that the list calls for, whichever it is. -/

theorem fails_of_nest (h : nest top es = .error error) : Fails es error := by
  by_cases hne : es = []
  · subst hne
    cases h
    exact .empty rfl
  cases hparents : parentPositions es with
  | error err =>
    rw [nest_of_error hne hparents] at h
    cases h
    obtain ⟨before, e, after, heq, hbefore, herror⟩ := parentPositions_eq_error_iff.mp hparents
    obtain ⟨name, hname, ⟨hnone, rfl⟩ | ⟨hmany, rfl⟩⟩ := parentPosition_eq_error_iff.mp herror
    · exact .dangling heq hbefore hname hnone
    · exact .ambiguous heq hbefore hname hmany
  | ok parents =>
    have hresolve := exists_parentPositions_iff.mp ⟨parents, hparents⟩
    rw [nest_of_ok hne hparents] at h
    split at h
    · rename_i hroots
      cases h
      exact .noRoot hne hresolve ((roots_isEmpty_iff hparents).mp hroots)
    · rename_i hroots
      split at h
      · rename_i i hi
        cases h
        obtain ⟨before, e, after, heq, rfl, he, hbefore⟩ :=
          (firstUnmarked_eq_some_iff_arrives hparents).mp hi
        have hroot : ∃ d ∈ es, d.parent = none := by
          rw [roots_isEmpty_iff hparents] at hroots
          push Not at hroots
          exact hroots
        have hget : es.getD before.length {} = e := by
          rw [heq]
          simp
        rw [hget]
        exact .cycle heq hresolve hroot hbefore he
      · cases h

theorem nest_of_fails (h : Fails es error) : nest top es = .error error := by
  cases h with
  | empty hnil =>
    subst hnil
    rfl
  | @dangling before after e name heq hbefore hname hnone =>
    have hne : es ≠ [] := by simp [heq]
    refine nest_of_error hne (parentPositions_eq_error_iff.mpr ⟨before, e, after, heq, hbefore, ?_⟩)
    exact parentPosition_eq_error_iff.mpr ⟨name, hname, Or.inl ⟨hnone, rfl⟩⟩
  | @ambiguous before after e name heq hbefore hname hmany =>
    have hne : es ≠ [] := by simp [heq]
    refine nest_of_error hne (parentPositions_eq_error_iff.mpr ⟨before, e, after, heq, hbefore, ?_⟩)
    exact parentPosition_eq_error_iff.mpr ⟨name, hname, Or.inr ⟨hmany, rfl⟩⟩
  | noRoot hne hresolve hnone =>
    obtain ⟨parents, hparents⟩ := exists_parentPositions_iff.mpr hresolve
    rw [nest_of_ok hne hparents, if_pos ((roots_isEmpty_iff hparents).mpr hnone)]
  | @cycle before after e heq hresolve hroot hbefore he =>
    have hne : es ≠ [] := by simp [heq]
    obtain ⟨parents, hparents⟩ := exists_parentPositions_iff.mpr hresolve
    have hroots : ¬ (positionsUnder parents none).isEmpty = true := by
      rw [roots_isEmpty_iff hparents]
      push Not
      exact hroot
    have hfirst : (Sweep.ofParents parents).firstUnmarked = some before.length :=
      (firstUnmarked_eq_some_iff_arrives hparents).mpr ⟨before, e, after, heq, rfl, he, hbefore⟩
    have hget : es.getD before.length {} = e := by
      rw [heq]
      simp
    rw [nest_of_ok hne hparents, if_neg hroots, hfirst]
    simp only [hget]

theorem nest_eq_error_iff : nest top es = .error error ↔ Fails es error :=
  ⟨fails_of_nest, nest_of_fails⟩

/-- A list that is not empty and from all of whose entries one arrives has a root. -/
theorem exists_root (hne : es ≠ []) (h : ∀ e ∈ es, Arrives es e) : ∃ e ∈ es, e.parent = none := by
  have hroot : ∀ e, Arrives es e → e ∈ es → ∃ d ∈ es, d.parent = none := by
    intro e he
    induction he with
    | @root e hnone => exact fun hmem => ⟨e, hmem, hnone⟩
    | under _ hp _ _ ih => exact fun _ => ih hp
  obtain ⟨e, he⟩ := List.exists_mem_of_ne_nil es hne
  exact hroot e (h e he) he

theorem exists_nest_iff : (∃ l, nest top es = .ok l) ↔
    es ≠ [] ∧ (∀ e ∈ es, Resolves es e) ∧ ∀ e ∈ es, Arrives es e := by
  refine ⟨?_, ?_⟩
  · rintro ⟨l, hl⟩
    obtain ⟨hne, parents, hparents, hnone, -⟩ := parents_of_nest hl
    exact ⟨hne, exists_parentPositions_iff.mp ⟨parents, hparents⟩,
      (firstUnmarked_eq_none_iff_arrives hparents).mp hnone⟩
  · rintro ⟨hne, hresolve, harrive⟩
    obtain ⟨parents, hparents⟩ := exists_parentPositions_iff.mpr hresolve
    have hroots : ¬ (positionsUnder parents none).isEmpty = true := by
      rw [roots_isEmpty_iff hparents]
      push Not
      exact exists_root hne harrive
    have hnone := (firstUnmarked_eq_none_iff_arrives hparents).mpr harrive
    rw [nest_of_ok hne hparents, if_neg hroots, hnone]
    exact ⟨_, rfl⟩

/-- **When a flat list nests, and which error it gives otherwise.** -/
theorem nest_outcome (top : Option Attributes) (es : List Entry) :
    (∀ error, nest top es = .error error ↔ Fails es error) ∧
      ((∃ l, nest top es = .ok l) ↔
        es ≠ [] ∧ (∀ e ∈ es, Resolves es e) ∧ ∀ e ∈ es, Arrives es e) ∧
      ∀ parents, parentPositions es = .ok parents → LoopsEnd parents :=
  ⟨fun _ => nest_eq_error_iff, exists_nest_iff, fun parents _ => loopsEnd parents⟩

end Entry

end MapLayers
