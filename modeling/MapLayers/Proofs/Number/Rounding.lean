import MapLayers.Number.Binary64

/-!
# What rounding keeps

A quotient that is a binary64 number already is rounded to that number
(`Binary64.ofRatio_of_units`).  So a product with one is the number itself (`Binary64.mul_one`).
What a quotient is rounded to depends on its value only (`Binary64.ofRatio_mul_right`), which is not
to be seen from the way in which it is found: numerator and denominator are shifted, and divided
with a remainder.

How far a quotient may go before it is out of range is seen from its binary logarithm alone
(`Binary64.nearest_le`); natural numbers of 64 bits are far from it (`Binary64.isSome_ofNat`).

Natural numbers of 53 bits are binary64 numbers, and so are the powers of ten up to the 22nd
(`Binary64.powerOfTen_exact`), since the power of five in them has 53 bits at most.  Products and
quotients of such numbers are rounded only once (`Binary64.IsNat.mul_eq`, `Binary64.IsNat.div_eq`).

A magnitude is a significand and a shift.  The first part has what is needed about these: a
significand that is shifted has all its bits, and where a quotient has a shift, the number nearest
to it is the one with that shift and the nearest significand (`Binary64.nearest_of_shift`).
-/

set_option autoImplicit false

namespace MapLayers

namespace Binary64

/-! ## Significand and shift

A magnitude is put together from a shift and a significand, and both can be had back.  The shift
that a quotient is given is the one that leaves 53 bits. -/

theorem two_pow_pos (n : Nat) : 0 < Nat.pow 2 n := Nat.pow_pos (by decide)

theorem two_pow_add (m n : Nat) : Nat.pow 2 (m + n) = Nat.pow 2 m * Nat.pow 2 n :=
  Nat.pow_add 2 m n

theorem unitsPerOne_pos : 0 < unitsPerOne := by decide +kernel

theorem log2_lt_of_lt {n k : Nat} (hk : 0 < k) (h : n < Nat.pow 2 k) : n.log2 < k := by
  by_cases hzero : n = 0
  · rw [hzero, Nat.log2_zero]
    exact hk
  · exact (Nat.log2_lt hzero).mpr h

/-- The magnitude put together again. -/
theorem shift_mul_add_significand (x : Binary64) :
    x.shift * Nat.pow 2 52 + x.significand = x.magnitude := by
  have hmagnitude := Nat.div_add_mod x.magnitude (Nat.pow 2 52)
  rw [shift, significand]
  split
  · rename_i hzero
    rw [hzero, Nat.zero_sub, Nat.zero_mul, Nat.zero_add]
  · rename_i hfield
    obtain ⟨field, hsucc⟩ := Nat.exists_eq_succ_of_ne_zero hfield
    rw [hsucc, Nat.mul_succ, Nat.mul_comm] at hmagnitude
    rw [hsucc, Nat.succ_sub_one, ← Nat.add_assoc, hmagnitude]

theorem significand_lt (x : Binary64) : x.significand < Nat.pow 2 53 := by
  have hdouble : Nat.pow 2 52 + Nat.pow 2 52 = Nat.pow 2 53 := rfl
  have hpos := two_pow_pos 52
  rw [significand]
  split
  · rename_i hzero
    rcases Nat.div_eq_zero_iff.mp hzero with hzero | hlt
    · exact absurd hzero (Nat.ne_of_gt hpos)
    · omega
  · have hmod := Nat.mod_lt x.magnitude hpos
    omega

/-- A significand that is shifted has all its bits. -/
theorem le_significand {x : Binary64} (h : x.shift ≠ 0) : Nat.pow 2 52 ≤ x.significand := by
  rw [significand, if_neg]
  · exact Nat.le_add_right _ _
  · intro hzero
    exact h (by rw [shift, hzero])

/-- The shift that leaves a significand of 53 bits, or no shift. -/
theorem log2_sub_eq {n k : Nat} (hhigh : n < Nat.pow 2 (53 + k))
    (hlow : k ≠ 0 → Nat.pow 2 (52 + k) ≤ n) : n.log2 - 52 = k := by
  by_cases hk : k = 0
  · subst hk
    have hlog := log2_lt_of_lt (by decide) hhigh
    omega
  · have hle := hlow hk
    have hne : n ≠ 0 := Nat.ne_of_gt (Nat.lt_of_lt_of_le (two_pow_pos _) hle)
    have hlog : n.log2 = 52 + k :=
      (Nat.log2_eq_iff hne).mpr ⟨hle, by rw [Nat.add_right_comm]; exact hhigh⟩
    omega

/-- Where a quotient has a shift, it is rounded to the number with that shift and the significand
that is nearest to it. -/
theorem nearest_of_shift {p q k m : Nat} (hq : 0 < q)
    (hhigh : p * unitsPerOne < Nat.pow 2 53 * (q * Nat.pow 2 k))
    (hlow : k ≠ 0 → Nat.pow 2 52 * (q * Nat.pow 2 k) ≤ p * unitsPerOne)
    (hround : divideToEven (p * unitsPerOne) (q * Nat.pow 2 k) = m) :
    nearest p q = k * Nat.pow 2 52 + m := by
  have hpow (n : Nat) : Nat.pow 2 n * (q * Nat.pow 2 k) = Nat.pow 2 (n + k) * q := by
    rw [two_pow_add, Nat.mul_comm q, Nat.mul_assoc]
  rw [hpow] at hhigh
  have hshift : (p * unitsPerOne / q).log2 - 52 = k := by
    refine log2_sub_eq ((Nat.div_lt_iff_lt_mul hq).mpr hhigh) fun hk => ?_
    have hle := hlow hk
    rw [hpow] at hle
    exact (Nat.le_div_iff_mul_le hq).mpr hle
  simp only [nearest, hshift, hround]

/-! ## Exact quotients

A number of units over the units in one is the number itself: nothing is left over when it is
divided. -/

theorem divideToEven_mul (m : Nat) {q : Nat} (hq : 0 < q) : divideToEven (m * q) q = m := by
  simp only [divideToEven, Nat.mul_div_cancel m hq, Nat.mul_mod_left, Nat.mul_zero, if_pos hq]

theorem nearest_of_units (x : Binary64) {p q : Nat} (hq : 0 < q)
    (h : p * unitsPerOne = x.units * q) : nearest p q = x.magnitude := by
  have hpos : 0 < q * Nat.pow 2 x.shift := Nat.mul_pos hq (two_pow_pos _)
  have hexact : p * unitsPerOne = x.significand * (q * Nat.pow 2 x.shift) := by
    rw [h, units, Nat.mul_assoc, Nat.mul_comm (Nat.pow 2 x.shift) q]
  rw [← shift_mul_add_significand]
  refine nearest_of_shift hq ?_ (fun hshift => ?_) ?_
  · rw [hexact]
    exact Nat.mul_lt_mul_of_pos_right x.significand_lt hpos
  · rw [hexact]
    exact Nat.mul_le_mul_right _ (le_significand hshift)
  · rw [hexact, divideToEven_mul _ hpos]

/-- **A quotient that is a binary64 number is rounded to that number.** -/
theorem ofRatio_of_units (negative : Bool) (x : Binary64) {p q : Nat} (hq : 0 < q)
    (h : p * unitsPerOne = x.units * q) :
    ofRatio negative p q = some ⟨negative, x.magnitude, x.finite⟩ := by
  have hnearest := nearest_of_units x hq h
  simp only [ofRatio, hnearest, dif_pos x.finite]

/-- The number one. -/
def one : Binary64 := ⟨false, 1023 * Nat.pow 2 52, by decide⟩

theorem units_one : one.units = unitsPerOne := by decide +kernel

theorem powerOfTen_zero : powerOfTen 0 = some one := by decide +kernel

/-- The product of a number with one is the number. -/
theorem mul_one (x : Binary64) : x.mul one = some x := by
  have hpos : 0 < unitsPerOne * unitsPerOne :=
    Nat.mul_pos unitsPerOne_pos unitsPerOne_pos
  have hsign : (x.negative != one.negative) = x.negative := Bool.bne_false x.negative
  rw [mul, units_one, hsign, ofRatio_of_units _ x hpos (Nat.mul_assoc _ _ _)]

/-! ## Range -/

theorem divideToEven_le (p q : Nat) : divideToEven p q ≤ p / q + 1 := by
  simp only [divideToEven]
  split
  · omega
  split <;> omega

/-- The magnitude that a quotient is rounded to is bounded by its logarithm. -/
theorem nearest_le (p q : Nat) :
    nearest p q ≤ ((p * unitsPerOne / q).log2 - 52) * Nat.pow 2 52 + Nat.pow 2 53 := by
  rw [nearest]
  generalize hshift : (p * unitsPerOne / q).log2 - 52 = shift
  have hlt : p * unitsPerOne / q < Nat.pow 2 (53 + shift) :=
    Nat.lt_of_lt_of_le Nat.lt_log2_self (Nat.pow_le_pow_right (by decide) (by omega))
  have hquotient : p * unitsPerOne / (q * Nat.pow 2 shift) < Nat.pow 2 53 := by
    rw [← Nat.div_div_eq_div_mul]
    refine (Nat.div_lt_iff_lt_mul (two_pow_pos shift)).mpr ?_
    rw [two_pow_add] at hlt
    exact hlt
  have hround := divideToEven_le (p * unitsPerOne) (q * Nat.pow 2 shift)
  exact Nat.add_le_add_left (by omega) _

/-- Natural numbers of 64 bits are in range. -/
theorem isSome_ofNat {n : Nat} (h : n < Nat.pow 2 64) : (ofNat n).isSome := by
  have hproduct : Nat.pow 2 64 * unitsPerOne = Nat.pow 2 1138 := by decide +kernel
  have hunits : n * unitsPerOne < Nat.pow 2 1138 :=
    hproduct ▸ Nat.mul_lt_mul_of_pos_right h unitsPerOne_pos
  have hlog : (n * unitsPerOne / 1).log2 ≤ 1137 := by
    have hlt := log2_lt_of_lt (by decide) hunits
    rw [Nat.div_one]
    omega
  have hshift : ((n * unitsPerOne / 1).log2 - 52) * Nat.pow 2 52 ≤ 1085 * Nat.pow 2 52 :=
    Nat.mul_le_mul_right _ (Nat.sub_le_sub_right hlog 52)
  have hbound : 1085 * Nat.pow 2 52 + Nat.pow 2 53 < infiniteMagnitude := by decide
  have hfinite : nearest n 1 < infiniteMagnitude :=
    Nat.lt_of_le_of_lt (nearest_le n 1)
      (Nat.lt_of_le_of_lt (Nat.add_le_add_right hshift _) hbound)
  rw [ofNat, ofRatio, dif_pos hfinite]
  rfl

/-! ## Quotients of one value

Numerator and denominator may be multiplied by one and the same number.  The shift is read off their
logarithms, which change, so this is not plain from the definition. -/

theorem divideToEven_mul_right (n d : Nat) {c : Nat} (hc : 0 < c) :
    divideToEven (n * c) (d * c) = divideToEven n d := by
  have hdiv : n * c / (d * c) = n / d := Nat.mul_div_mul_right n d hc
  have hmod : 2 * (n * c % (d * c)) = 2 * (n % d) * c := by
    rw [Nat.mul_mod_mul_right, Nat.mul_assoc]
  simp only [divideToEven, hdiv, hmod, Nat.mul_lt_mul_right hc]

/-- What a quotient is rounded to depends on its value only. -/
theorem ofRatio_mul_right (negative : Bool) (p q : Nat) {c : Nat} (hc : 0 < c) :
    ofRatio negative (p * c) (q * c) = ofRatio negative p q := by
  have hnearest : nearest (p * c) (q * c) = nearest p q := by
    have hscaled (p : Nat) : p * c * unitsPerOne = p * unitsPerOne * c := Nat.mul_right_comm p c _
    simp only [nearest, hscaled, Nat.mul_div_mul_right _ _ hc, Nat.mul_right_comm q c,
      divideToEven_mul_right _ _ hc]
  simp only [ofRatio, hnearest]

/-! ## Numbers that are not rounded

Natural numbers with a significand that fits, and what is made of two of them. -/

/-- A significand of 53 bits, shifted. -/
theorem exists_units_of_le {m k : Nat} (hlow : Nat.pow 2 52 ≤ m) (hhigh : m < Nat.pow 2 53)
    (hk : k < 2000) : ∃ x : Binary64, x.units = m * Nat.pow 2 k := by
  have h52 : Nat.pow 2 52 = 4503599627370496 := rfl
  have h53 : Nat.pow 2 53 = 9007199254740992 := rfl
  have hfinite : k * Nat.pow 2 52 + m < infiniteMagnitude := by
    have hmax : infiniteMagnitude = 2047 * Nat.pow 2 52 := rfl
    rw [hmax, h52]
    omega
  refine ⟨⟨false, k * Nat.pow 2 52 + m, hfinite⟩, ?_⟩
  have hfield : (k * Nat.pow 2 52 + m) / Nat.pow 2 52 = k + 1 := by
    rw [h52]
    omega
  have hfraction : Nat.pow 2 52 + (k * Nat.pow 2 52 + m) % Nat.pow 2 52 = m := by
    rw [h52]
    omega
  simp only [units, significand, shift, hfield, hfraction]
  rfl

/-- A natural number of 53 bits is a binary64 number, and so is such a number shifted. -/
theorem exists_units {n k : Nat} (hn : n < Nat.pow 2 53) (hk : k ≤ 64) :
    ∃ x : Binary64, x.units = n * Nat.pow 2 k * unitsPerOne := by
  by_cases hzero : n = 0
  · exact ⟨zero, by rw [hzero, Nat.zero_mul, Nat.zero_mul]; rfl⟩
  · have hlog := log2_lt_of_lt (by decide) hn
    obtain ⟨j, hj⟩ : ∃ j, n.log2 + j = 52 := ⟨52 - n.log2, by omega⟩
    obtain ⟨t, ht, hunits⟩ : ∃ t, t = 1074 ∧ unitsPerOne = Nat.pow 2 t :=
      ⟨1074, rfl, by decide +kernel⟩
    obtain ⟨i, rfl⟩ : ∃ i, t = j + i := ⟨t - j, by omega⟩
    obtain ⟨hlow, hhigh⟩ := (Nat.log2_eq_iff hzero).mp rfl
    have hlow : Nat.pow 2 52 ≤ n * Nat.pow 2 j := by
      rw [← hj, two_pow_add]
      exact Nat.mul_le_mul_right _ hlow
    have hhigh : n * Nat.pow 2 j < Nat.pow 2 53 := by
      rw [show 53 = n.log2 + 1 + j by omega, two_pow_add]
      exact Nat.mul_lt_mul_of_pos_right hhigh (two_pow_pos j)
    obtain ⟨x, hx⟩ := exists_units_of_le hlow hhigh (k := i + k) (by omega)
    exact ⟨x, by rw [hx, hunits, two_pow_add, two_pow_add, Nat.mul_comm (Nat.pow 2 i),
      Nat.mul_mul_mul_comm]⟩

/-- The number is this natural number. -/
structure IsNat (x : Binary64) (n : Nat) : Prop where
  /-- It is not negative. -/
  negative : x.negative = false
  /-- It has this value. -/
  units : x.units = n * unitsPerOne

/-- Natural numbers of 53 bits are not rounded, nor are such numbers shifted. -/
theorem ofNat_exact {n k : Nat} (hn : n < Nat.pow 2 53) (hk : k ≤ 64) :
    ∃ x, ofNat (n * Nat.pow 2 k) = some x ∧ x.IsNat (n * Nat.pow 2 k) := by
  obtain ⟨x, hx⟩ := exists_units hn hk
  exact ⟨⟨false, x.magnitude, x.finite⟩,
    ofRatio_of_units false x Nat.one_pos (by rw [hx, Nat.mul_one]), rfl, hx⟩

/-- The powers of ten up to `10 ^ 22` are not rounded, since `5 ^ 22` has 53 bits. -/
theorem powerOfTen_exact {k : Nat} (hk : k ≤ 22) :
    ∃ x, powerOfTen k = some x ∧ x.IsNat (Nat.pow 10 k) := by
  have hfive : Nat.pow 5 k < Nat.pow 2 53 :=
    Nat.lt_of_le_of_lt (Nat.pow_le_pow_right (by decide) hk) (by decide)
  have hten : Nat.pow 10 k = Nat.pow 5 k * Nat.pow 2 k := Nat.mul_pow 5 2 k
  rw [powerOfTen, hten]
  exact ofNat_exact hfive (by omega)

namespace IsNat

variable {x y : Binary64} {m n : Nat}

theorem mul_eq (hx : x.IsNat m) (hy : y.IsNat n) : x.mul y = ofRatio false (m * n) 1 := by
  rw [mul, hx.negative, hy.negative, hx.units, hy.units, Nat.mul_mul_mul_comm, bne_self_eq_false,
    ← ofRatio_mul_right false (m * n) 1 (Nat.mul_pos unitsPerOne_pos unitsPerOne_pos), Nat.one_mul]

theorem div_eq (hx : x.IsNat m) (hy : y.IsNat n) : x.div y = ofRatio false m n := by
  rw [div, hx.negative, hy.negative, hx.units, hy.units, bne_self_eq_false,
    ofRatio_mul_right false m n unitsPerOne_pos]

end IsNat

end Binary64

end MapLayers
