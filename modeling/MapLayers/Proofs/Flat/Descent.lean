import Mathlib.Data.List.Basic
import Mathlib.Data.List.Perm.Subperm

/-!
# Descent

What hangs below a position is given by a function from positions to lists of positions, and nothing
else: whether anything is on a cycle is not known beforehand.  This module is about going down in
such a table, before there are any trees.

* `Below under n i j` says that going down `n` times from `i` leads to `j`.
* `ListedOnce under` says that no position is listed twice.  Then the positions above a given one
  form a single line: of two of them one is above the other (`Below.meet`).
* `Apart under is` says that no position of a list is properly below one of the list, itself
  included.  A start that is apart has no cycle below it (`Apart.below`), for a cycle cannot be
  entered from outside without listing a position twice.

From a start without a cycle only so many steps down are possible as there are positions with
something below them (`Below.le`): the way passes no position twice, and there is a bound for the
positions that it can pass.  This is what makes loops over such a table end, and what the recursion
in `Sprout.exists_follows` is on.
-/

set_option autoImplicit false

namespace MapLayers

/-- Going down so many times from the first position leads to the second. -/
inductive Below (under : Nat → List Nat) (i : Nat) : Nat → Nat → Prop
  | here : Below under i 0 i
  | child {k j c : Nat} : Below under i k j → c ∈ under j → Below under i (k + 1) c

/-- No position is listed twice. -/
structure ListedOnce (under : Nat → List Nat) : Prop where
  nodup : ∀ i, (under i).Nodup
  parent_eq : ∀ {i j c}, c ∈ under i → c ∈ under j → i = j

/-- No position of a list is properly below one of the list, itself included. -/
def Apart (under : Nat → List Nat) (starts : List Nat) : Prop :=
  ∀ a ∈ starts, ∀ b ∈ starts, ∀ k, ¬ Below under a (k + 1) b

variable {under : Nat → List Nat} {i j c k m n : Nat} {starts : List Nat}

/-- Different positions below a bound are no more than the bound. -/
theorem length_le_of_nodup {ps : List Nat} (hnd : ps.Nodup) (hlt : ∀ p ∈ ps, p < n) :
    ps.length ≤ n := by
  have hsub : ps ⊆ List.range n := fun p hp => List.mem_range.mpr (hlt p hp)
  have hlen := (List.subperm_of_subset hnd hsub).length_le
  rwa [List.length_range] at hlen

namespace Below

theorem trans (h : Below under i k j) (h' : Below under j m c) : Below under i (k + m) c := by
  induction h' with
  | here => exact h
  | child _ hc ih => exact ih.child hc

theorem of_mem (h : c ∈ under i) : Below under i 1 c := here.child h

/-- What is below a child is one step further down. -/
theorem of_child (h : c ∈ under i) (h' : Below under c k j) : Below under i (k + 1) j := by
  rw [Nat.add_comm]
  exact (of_mem h).trans h'

/-- **Two positions above a third are above one another.** -/
theorem meet (once : ListedOnce under) (h : Below under i k c) (h' : Below under j (k + m) c) :
    Below under j m i := by
  induction h with
  | here => rwa [Nat.zero_add] at h'
  | @child k p c _ hc ih =>
    rw [Nat.add_right_comm] at h'
    cases h' with
    | child hq hc' =>
      obtain rfl := once.parent_eq hc hc'
      exact ih hq

end Below

/-! ## Keeping clear of cycles -/

namespace Apart

theorem of_mem (h : Apart under starts) (hi : i ∈ starts) : Apart under [i] := by
  intro a ha b hb
  rw [List.mem_singleton.mp ha, List.mem_singleton.mp hb]
  exact h i hi i hi

theorem singleton_iff : Apart under [i] ↔ ∀ k, ¬ Below under i (k + 1) i := by
  simp [Apart]

/-- Positions that are listed nowhere are below nothing. -/
theorem of_not_listed (h : ∀ i ∈ starts, ∀ j, i ∉ under j) : Apart under starts := by
  intro a _ b hb k hk
  cases hk with
  | child _ hmem => exact h b hb _ hmem

/-- The children of a position that is not on a cycle. -/
theorem children (once : ListedOnce under) (h : Apart under [i]) : Apart under (under i) := by
  intro a ha b hb k hk
  cases hk with
  | child hp hb' =>
    obtain rfl := once.parent_eq hb hb'
    exact singleton_iff.mp h _ (Below.of_child ha hp)

/-- What is below two positions that are apart would put one below the other. -/
theorem eq_of_below {a b : Nat} (once : ListedOnce under) (h : Apart under starts)
    (ha : a ∈ starts) (hb : b ∈ starts) (hk : Below under a k c) (hm : Below under b m c) :
    a = b := by
  have hle : ∀ {a b k m}, a ∈ starts → b ∈ starts → k ≤ m → Below under a k c →
      Below under b m c → a = b := by
    intro a b k m ha hb hkm hk hm
    obtain ⟨d, rfl⟩ := Nat.exists_eq_add_of_le hkm
    have hmeet := Below.meet once hk hm
    cases d with
    | zero =>
      cases hmeet
      rfl
    | succ d => exact absurd hmeet (h b hb a ha d)
  rcases Nat.le_total k m with hkm | hmk
  · exact hle ha hb hkm hk hm
  · exact (hle hb ha hmk hm hk).symm

/-- **No cycle is entered from a start that is not on one.** -/
theorem below (once : ListedOnce under) (h : Apart under [i]) (hj : Below under i m j) :
    Apart under [j] := by
  induction hj with
  | here => exact h
  | child _ hc ih => exact (ih.children once).of_mem hc

end Apart

namespace Below

/-- The positions passed on the way down. -/
theorem exists_path (once : ListedOnce under) (hbound : ∀ j, n ≤ j → under j = [])
    (hi : Apart under [i]) (h : Below under i k j) :
    ∃ path : List Nat, path.length = k ∧ path.Nodup ∧
      ∀ p ∈ path, p < n ∧ ∃ m, Below under p (m + 1) j := by
  induction h with
  | here => exact ⟨[], rfl, List.nodup_nil, by simp⟩
  | @child k j c hj hc ih =>
    obtain ⟨path, hlen, hnd, hpath⟩ := ih
    have hjn : j < n := by
      by_contra hge
      rw [hbound j (Nat.le_of_not_lt hge)] at hc
      exact absurd hc List.not_mem_nil
    have hfresh : j ∉ path := by
      intro hmem
      obtain ⟨m, hm⟩ := (hpath j hmem).2
      exact Apart.singleton_iff.mp (hi.below once hj) m hm
    refine ⟨j :: path, by rw [List.length_cons, hlen], List.nodup_cons.mpr ⟨hfresh, hnd⟩, ?_⟩
    rw [List.forall_mem_cons]
    refine ⟨⟨hjn, 0, of_mem hc⟩, fun p hp => ?_⟩
    obtain ⟨hpn, m, hm⟩ := hpath p hp
    exact ⟨hpn, m + 1, hm.child hc⟩

/-- **The way down is no longer than there are positions.** -/
theorem le (once : ListedOnce under) (hbound : ∀ j, n ≤ j → under j = [])
    (hi : Apart under [i]) (h : Below under i k j) : k ≤ n := by
  obtain ⟨path, rfl, hnd, hpath⟩ := exists_path once hbound hi h
  exact length_le_of_nodup hnd fun p hp => (hpath p hp).1

end Below

end MapLayers
