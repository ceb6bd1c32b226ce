import MapLayers.Json.Fields
import MapLayers.Proofs.Json.Literals
import MapLayers.Proofs.Number.Intervals

/-!
# The literals of numbers

The literal of every binary64 number may be written (`Binary64.legible_toNumeral`): the shortest
decimal is never zero, so that its digits start with another one.  The literal of a natural number
of 64 bits stands for the binary64 number nearest to it (`Numeral.toBinary64_ofNat`) and reads back
as a natural number (`Numeral.toNat?_ofNat`).

Whether the literal of a binary64 number reads back, too, is another matter.  It is the shortest
decimal that rounds to the number, but it is not read by rounding once: more than fifteen digits can
be read as a neighbour.  `Binary64.ReadsBack` says that this does not happen to a number, and can be
decided; `Binary64.exists_not_readsBack` has a number to which it does.

So nothing can be said here for all numbers at once.  What can be said is in
`MapLayers.Proofs.Number.Short`, for numbers whose literals are short, and the modules about records
ask for `Binary64.ReadsBack`, number by number.
-/

set_option autoImplicit false

namespace MapLayers

/-! ## Literals that may be written -/

/-- The digits of a decimal other than zero do not start with zero, wherever the point is. -/
theorem Decimal.legible_toNumeral (negative : Bool) {d : Decimal} (h : 0 < d.significand) :
    (d.toNumeral negative).Legible := by
  obtain ⟨first, rest, hdigits, hfirst⟩ := Numeral.exists_digitsOf (Nat.ne_of_gt h)
  simp only [toNumeral, hdigits]
  split
  · split
    · exact Numeral.leading_cons hfirst _
    · split
      · rename_i n _ hplaces
        obtain ⟨k, hk⟩ : ∃ k, (first :: rest).length - (n + 1) = k + 1 :=
          Nat.exists_eq_add_one_of_ne_zero (by omega)
        rw [hk]
        exact Numeral.leading_cons hfirst _
      · exact trivial
  · exact Numeral.leading_cons hfirst _

namespace Binary64

/-- **The literal of every number may be written.** -/
theorem legible_toNumeral (x : Binary64) : x.toNumeral.Legible := by
  rw [toNumeral]
  split
  · exact trivial
  · rename_i d hd
    exact Decimal.legible_toNumeral x.negative (significand_shortest_pos hd)

end Binary64

/-! ## Natural numbers -/

namespace Scaled

theorem le_foldl_digits (ds : List Digit) (n : Nat) :
    n ≤ ds.foldl (fun n d => 10 * n + d.val) n := by
  induction ds generalizing n with
  | nil => exact Nat.le_refl n
  | cons d ds ih => exact Nat.le_trans (by omega) (ih (10 * n + d.val))

/-- Digits that fit are all taken up. -/
theorem ofWhole_eq (ds : List Digit) (n : Nat)
    (h : ds.foldl (fun n d => 10 * n + d.val) n < bound) :
    ofWhole n ds = ⟨ds.foldl (fun n d => 10 * n + d.val) n, 0⟩ := by
  induction ds generalizing n with
  | nil => rfl
  | cons d ds ih =>
    rw [List.foldl_cons] at h ⊢
    rw [ofWhole, if_pos (Nat.lt_of_le_of_lt (le_foldl_digits ds _) h), ih _ h]

theorem ofNumeral_ofNat {n : Nat} (h : n < bound) : ofNumeral (.ofNat n) = ⟨n, .ofNat 0⟩ := by
  have hvalue := Numeral.digitsValue_digitsOf n
  rw [Numeral.digitsValue] at hvalue
  have hwhole := ofWhole_eq (Numeral.digitsOf n) 0 (by rw [hvalue]; exact h)
  simp only [ofNumeral, Numeral.ofNat, hwhole, hvalue, addFraction]
  rfl

theorem toBinary64_mul {n k : Nat} (h : k ≤ step) :
    toBinary64 ⟨n, .ofNat k⟩
      = (Binary64.ofNat n).bind fun x => (Binary64.powerOfTen k).bind x.mul := by
  simp only [toBinary64, Option.bind_eq_bind, if_pos h]

theorem toBinary64_natural (n : Nat) : toBinary64 ⟨n, .ofNat 0⟩ = Binary64.ofNat n := by
  -- one function equation, so that the power of ten is never computed
  have hmul : (fun x : Binary64 => (some Binary64.one).bind x.mul) = some :=
    funext fun x => (Option.bind_some _ _).trans x.mul_one
  rw [toBinary64_mul (Nat.zero_le _), Binary64.powerOfTen_zero, hmul, Option.bind_fun_some]

end Scaled

namespace Numeral

/-- **The literal of a natural number of 64 bits stands for the number nearest to it.** -/
theorem toBinary64_ofNat {n : Nat} (h : n < Scaled.bound) :
    (ofNat n).toBinary64 = Binary64.ofNat n := by
  rw [toBinary64, Scaled.ofNumeral_ofNat h, Scaled.toBinary64_natural, Binary64.ofNat,
    Binary64.ofRatio]
  split <;> rfl

theorem toNat?_ofNat (n : Nat) : (ofNat n).toNat? = some n := by
  rw [toNat?]
  show some (digitsValue (digitsOf n)) = some n
  rw [digitsValue_digitsOf]

end Numeral

namespace Json

theorem asUInt32_nat (u : UInt32) : asUInt32 (nat u.toNat) = some u := by
  simp only [asUInt32, nat, Numeral.toNat?_ofNat, Option.bind_eq_bind, Option.bind_some]
  rw [if_pos u.toNat_lt, UInt32.ofNat_toNat]

end Json

/-! ## Binary64 numbers -/

namespace Binary64

/-- The literal of the number stands for the number. -/
def ReadsBack (x : Binary64) : Prop := x.toNumeral.toBinary64 = some x

instance (x : Binary64) : Decidable x.ReadsBack :=
  inferInstanceAs (Decidable (x.toNumeral.toBinary64 = some x))

theorem asReal_real_iff (x : Binary64) : Json.asReal (.real x) = some x ↔ x.ReadsBack := Iff.rfl

/-- A number whose literal is read as a neighbour. -/
theorem exists_not_readsBack : ∃ x : Binary64, ¬ x.ReadsBack :=
  ⟨⟨false, 7076879486775288206, by decide⟩, by decide +kernel⟩

end Binary64

end MapLayers
