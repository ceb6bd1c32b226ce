import MapLayers.Proofs.Number.Literals

/-!
# Short literals

A literal is read in two rounded steps, which is one too many.  But while the digits of the literal
fit in a significand of 53 bits and the power of ten is at most the 22nd, neither the significand
nor the power of ten is rounded, so that only their product or quotient is
(`Numeral.toBinary64_of_short`).  Digits that number no more than fifteen always fit
(`Numeral.short_of_length`).

The literal of a binary64 number is that of its shortest decimal, with zeros up to the point where
there are none else (`Decimal.digits_toNumeral`).  Rounded once, that is the number.  So a number
with a short literal reads back (`Binary64.readsBack_of_short`).

`Numeral.Short` is about the literal and not about the number, since it is the digits that are taken
up one by one.  Zeros before or after the others change the literal and its power of ten, though not
the value, and what a quotient is rounded to depends on its value only
(`Decimal.rounded_toNumeral`).
-/

set_option autoImplicit false

namespace MapLayers

/-! ## Rounding once

The number nearest to a significand is the significand, and the number nearest to a modest power of
ten is that power.  One rounding is left, of their product or quotient. -/

namespace Scaled

theorem toBinary64_div {n k : Nat} (h : k < step) :
    toBinary64 ⟨n, .negSucc k⟩
      = (Binary64.ofNat n).bind fun x => (Binary64.powerOfTen (k + 1)).bind x.div := by
  have hdiv : k / step = 0 := Nat.div_eq_of_lt h
  have hmod : k % step = k := Nat.mod_eq_of_lt h
  simp only [toBinary64, Option.bind_eq_bind]
  refine Option.bind_congr fun x _ => ?_
  rw [hdiv, hmod, shrink, Option.bind_some]

/-- **A significand of 53 bits with a modest power of ten is rounded once.** -/
theorem toBinary64_eq_rounded {n : Nat} {e : Int} (hn : n < Nat.pow 2 53) (he : e.natAbs ≤ 22) :
    toBinary64 ⟨n, e⟩ = rounded ⟨n, e⟩ := by
  obtain ⟨x, hx, hsignificand⟩ := Binary64.ofNat_exact hn (Nat.zero_le 64)
  have hone : n * Nat.pow 2 0 = n := Nat.mul_one n
  rw [hone] at hx hsignificand
  cases e with
  | ofNat k =>
    have hk : k ≤ 22 := he
    obtain ⟨y, hy, hpower⟩ := Binary64.powerOfTen_exact hk
    rw [toBinary64_mul (Nat.le_trans hk (by decide)), hx, Option.bind_some, hy, Option.bind_some,
      hsignificand.mul_eq hpower, rounded, numerator, denominator]
  | negSucc k =>
    have hk : k + 1 ≤ 22 := he
    obtain ⟨y, hy, hpower⟩ := Binary64.powerOfTen_exact hk
    rw [toBinary64_div (Nat.lt_of_lt_of_le hk (by decide)), hx, Option.bind_some, hy,
      Option.bind_some, hsignificand.div_eq hpower, rounded, numerator, denominator]

end Scaled

/-! ## The digits of a literal

From the digits that are written to the significand that is read.  A digit that fits is taken up,
and fifteen of them fit. -/

namespace Numeral

/-- The digits of a literal, before and after the point. -/
def digits (n : Numeral) : List Digit := n.whole ++ n.fraction

/-- The power of ten of its last digit. -/
def power (n : Numeral) : Int := n.exponent.getD 0 - n.fraction.length

/-- The digits of a literal make a significand of 53 bits, and the power of ten is a modest one. -/
structure Short (n : Numeral) : Prop where
  /-- The significand is a binary64 number. -/
  significand : digitsValue n.digits < Nat.pow 2 53
  /-- The power of ten, or that of its inverse, is a binary64 number. -/
  power : n.power.natAbs ≤ 22

end Numeral

namespace Scaled

open Numeral (digitsValue digitsOf)

/-- Digits after the point that fit are all taken up. -/
theorem addFraction_eq (ds : List Digit) (n : Nat) (e : Int)
    (h : ds.foldl (fun n d => 10 * n + d.val) n < bound) :
    addFraction ⟨n, e⟩ ds = ⟨ds.foldl (fun n d => 10 * n + d.val) n, e - ds.length⟩ := by
  induction ds generalizing n e with
  | nil => rw [addFraction, List.foldl_nil, List.length_nil, Int.natCast_zero, Int.sub_zero]
  | cons d ds ih =>
    rw [List.foldl_cons] at h ⊢
    have hplaces : e - 1 - ds.length = e - (ds.length + 1 : Nat) := by omega
    rw [addFraction, if_pos (Nat.lt_of_le_of_lt (le_foldl_digits ds _) h), ih _ _ h,
      List.length_cons, hplaces]

/-- **A literal is read exactly** when its digits fit. -/
theorem ofNumeral_eq {n : Numeral} (h : digitsValue n.digits < bound) :
    ofNumeral n = ⟨digitsValue n.digits, n.power⟩ := by
  rw [digitsValue, Numeral.digits, List.foldl_append] at h ⊢
  have hwhole := ofWhole_eq n.whole 0 (Nat.lt_of_le_of_lt (le_foldl_digits n.fraction _) h)
  simp only [ofNumeral, hwhole, addFraction_eq _ _ _ h, Numeral.power]
  congr 1
  omega

end Scaled

namespace Numeral

/-- **A short literal stands for the number nearest to its value.** -/
theorem toBinary64_of_short {n : Numeral} (h : n.Short) :
    n.toBinary64
      = (Scaled.ofNumeral n).rounded.map fun x => ⟨n.negative, x.magnitude, x.finite⟩ := by
  have hbound : digitsValue n.digits < Scaled.bound := Nat.lt_trans h.significand (by decide)
  rw [toBinary64, Scaled.ofNumeral_eq hbound, Scaled.toBinary64_eq_rounded h.significand h.power]

theorem foldl_digits_lt (ds : List Digit) {n k : Nat} (h : n < Nat.pow 10 k) :
    ds.foldl (fun n d => 10 * n + d.val) n < Nat.pow 10 (k + ds.length) := by
  induction ds generalizing n k with
  | nil => exact h
  | cons d ds ih =>
    have hten : Nat.pow 10 (k + 1) = Nat.pow 10 k * 10 := rfl
    have hd := d.isLt
    rw [List.foldl_cons, List.length_cons, Nat.add_comm ds.length, ← Nat.add_assoc]
    exact ih (by omega)

theorem digitsValue_lt (ds : List Digit) : digitsValue ds < Nat.pow 10 ds.length := by
  rw [← Nat.zero_add ds.length]
  exact foldl_digits_lt ds (k := 0) Nat.one_pos

/-- A literal of up to fifteen digits and no exponent is short. -/
theorem short_of_length {n : Numeral} (hexponent : n.exponent = none)
    (h : n.digits.length ≤ 15) : n.Short where
  significand := Nat.lt_of_lt_of_le (digitsValue_lt _)
    (Nat.le_trans (Nat.pow_le_pow_right (by decide) h) (by decide))
  power := by
    rw [digits, List.length_append] at h
    rw [Numeral.power, hexponent, Option.getD_none]
    omega

theorem digitsValue_replicate_zero (k : Nat) (ds : List Digit) :
    digitsValue (List.replicate k Digit.zero ++ ds) = digitsValue ds := by
  induction k with
  | zero => rfl
  | succ k ih => exact ih

theorem digitsValue_append_zeros (ds : List Digit) (k : Nat) :
    digitsValue (ds ++ List.replicate k Digit.zero) = digitsValue ds * Nat.pow 10 k := by
  induction k with
  | zero => rw [List.replicate_zero, List.append_nil]; exact (Nat.mul_one _).symm
  | succ k ih =>
    rw [List.replicate_succ', ← List.append_assoc, digitsValue_append, ih]
    exact (Nat.mul_left_comm _ _ _).trans (congrArg _ Nat.pow_succ'.symm)

end Numeral

namespace Decimal

open Numeral (digitsValue digitsOf)

/-- The digits of a decimal are written with its power of ten, or with zeros up to the point and one
more after it. -/
theorem digits_toNumeral (negative : Bool) (d : Decimal) :
    (digitsValue (d.toNumeral negative).digits = d.significand ∧
      (d.toNumeral negative).power = d.exponent) ∨
    ∃ n, d.exponent = .ofNat n ∧
      digitsValue (d.toNumeral negative).digits = d.significand * Nat.pow 10 (n + 1) ∧
      (d.toNumeral negative).power = .negSucc 0 := by
  obtain ⟨significand, exponent⟩ := d
  have hdigits := Numeral.digitsValue_digitsOf significand
  have hlength : 0 < (digitsOf significand).length := by
    obtain ⟨first, rest, hds⟩ := Numeral.exists_of_leading (Numeral.leading_digitsOf significand)
    rw [hds]
    exact Nat.succ_pos _
  simp only [toNumeral, Numeral.digits, Numeral.power]
  split
  · cases exponent with
    | ofNat n =>
      refine Or.inr ⟨n, rfl, ?_, rfl⟩
      have hzeros :
          List.replicate n Digit.zero ++ [Digit.zero] = List.replicate (n + 1) Digit.zero :=
        List.replicate_succ'.symm
      rw [List.append_assoc, hzeros, Numeral.digitsValue_append_zeros, hdigits]
    | negSucc n =>
      refine Or.inl ?_
      simp only
      split
      · rename_i hplaces
        rw [List.take_append_drop, hdigits, List.length_drop]
        refine ⟨rfl, ?_⟩
        rw [Option.getD_none]
        omega
      · rename_i hplaces
        refine ⟨(Numeral.digitsValue_replicate_zero _ _).trans hdigits, ?_⟩
        rw [Option.getD_none, List.length_append, List.length_replicate]
        omega
  · refine Or.inl ⟨?_, ?_⟩
    · rw [List.take_append_drop, hdigits]
    · rw [Option.getD_some, List.length_drop]
      omega

/-- Zeros up to the point and after it do not change what a decimal is rounded to. -/
theorem rounded_toNumeral (negative : Bool) {d : Decimal}
    (h : digitsValue (d.toNumeral negative).digits < Scaled.bound) :
    (Scaled.ofNumeral (d.toNumeral negative)).rounded = d.scaled.rounded := by
  rw [Scaled.ofNumeral_eq h]
  rcases d.digits_toNumeral negative with ⟨hdigits, hplaces⟩ | ⟨n, hexponent, hdigits, hplaces⟩
  · rw [hdigits, hplaces, scaled]
  · have hzero : d.significand * Nat.pow 10 (n + 1) = d.significand * Nat.pow 10 n * 10 :=
      (Nat.mul_assoc _ _ _).symm
    have hten : Nat.pow 10 (0 + 1) = 1 * 10 := rfl
    rw [hdigits, hplaces, scaled, hexponent]
    simp only [Scaled.rounded, Scaled.numerator, Scaled.denominator]
    rw [hzero, hten, Binary64.ofRatio_mul_right _ _ _ (by decide)]

end Decimal

namespace Binary64

theorem negative_toNumeral (x : Binary64) : x.toNumeral.negative = x.negative := by
  rw [toNumeral]
  split
  · rfl
  · simp only [Decimal.toNumeral]
    split
    · split
      · rfl
      · split <;> rfl
    · rfl

theorem units_of_isZero {x : Binary64} (h : x.isZero = true) : x.units = 0 := by
  have hmagnitude : x.magnitude = 0 := beq_iff_eq.mp h
  rw [units, significand, if_pos (by rw [hmagnitude, Nat.zero_div]), hmagnitude, Nat.zero_mul]

/-- A zero is what its literal is rounded to. -/
theorem rounded_zero {x : Binary64} (h : x.isZero = true) :
    (Scaled.ofNumeral ⟨x.negative, [Digit.zero], [Digit.zero], none⟩).rounded
      = some ⟨false, x.magnitude, x.finite⟩ := by
  have hread : Scaled.ofNumeral ⟨x.negative, [Digit.zero], [Digit.zero], none⟩ = ⟨0, .negSucc 0⟩ :=
    Scaled.ofNumeral_eq (show Numeral.digitsValue [Digit.zero, Digit.zero] < Scaled.bound by decide)
  rw [hread, Scaled.rounded]
  exact ofRatio_of_units false x (Scaled.denominator_pos _)
    (by rw [Scaled.numerator, units_of_isZero h, Nat.zero_mul, Nat.zero_mul])

/-- **The literal of a number is rounded to that number**, where its digits fit in a significand. -/
theorem rounded_toNumeral {x : Binary64}
    (h : Numeral.digitsValue x.toNumeral.digits < Scaled.bound) :
    (Scaled.ofNumeral x.toNumeral).rounded = some ⟨false, x.magnitude, x.finite⟩ := by
  rw [toNumeral] at h ⊢
  cases hshortest : x.shortest with
  | some d =>
    rw [hshortest] at h
    exact (d.rounded_toNumeral x.negative h).trans (rounded_shortest hshortest)
  | none =>
    cases hzero : x.isZero with
    | true => exact rounded_zero hzero
    | false =>
      have hsome := isSome_shortest hzero
      rw [hshortest] at hsome
      exact absurd hsome Bool.false_ne_true

/-- **A number with a short literal reads back.** -/
theorem readsBack_of_short {x : Binary64} (h : x.toNumeral.Short) : x.ReadsBack := by
  have hbound := Nat.lt_trans h.significand (show Nat.pow 2 53 < Scaled.bound by decide)
  rw [ReadsBack, Numeral.toBinary64_of_short h, rounded_toNumeral hbound, negative_toNumeral]
  rfl

end Binary64

end MapLayers
