import MapLayers.Number.Reading
import MapLayers.Number.Shortest
import MapLayers.Proofs.Number.Rounding

/-!
# The interval of a number

A quotient in the interval of a binary64 number is rounded to that number (`Interval.nearest_eq`).
The ends of the interval are half a last place away from the number, and rounding takes the shift of
the number for almost all of it.  Only below a power of two is there a quarter of a last place where
the shift is smaller; that part is rounded up across the binade (`Interval.nearest_of_less`).
Whether the ends themselves belong to the interval depends on the significand: a tie goes to the
even one (`Interval.bounds_of_contains`).

The search for the shortest decimal ends for every number but the zeros
(`Binary64.isSome_shortest`), with a decimal in the interval (`Interval.Holds`).  So rounding that
decimal once gives the number back (`Binary64.rounded_shortest`).

The search goes from coarse grids of decimals to fine ones.  It finds nothing outside the interval,
because each candidate is tested, and it ends, because on a grid that is finer than the lower half
of the interval the multiple just below the centre is inside (`Interval.isSome_nearestMultiple`).
The lower half is at least half a unit wide, and the last grid of the search is finer than that.
-/

set_option autoImplicit false

namespace MapLayers

namespace Binary64

/-! ## Rounding to a number close by

In quarters of the last place of a number, its interval reaches from two below to two above, or from
one below when the number is a power of two.  Rounding with the shift of the number gives its
significand; the one case with another shift is that of a quotient just below a power of two. -/

/-- A quotient is rounded to a whole number that is at most half away, and less than half if it is
odd. -/
theorem divideToEven_eq {n d m : Nat} (hd : 0 < d) (hlow : 2 * (m * d) ≤ 2 * n + d)
    (hhigh : 2 * n ≤ 2 * (m * d) + d)
    (hodd : m % 2 = 1 → 2 * (m * d) < 2 * n + d ∧ 2 * n < 2 * (m * d) + d) :
    divideToEven n d = m := by
  have hfloor {f r : Nat} (hr : r < d) (h : r + d * f = n) : n / d = f ∧ n % d = r :=
    (Nat.div_mod_unique hd).mpr ⟨h, hr⟩
  rcases Nat.lt_or_ge n (m * d) with hbelow | habove
  · -- the quotient lies below `m`, so its floor is the predecessor
    obtain ⟨k, rfl⟩ : ∃ k, m = k + 1 := Nat.exists_eq_add_one_of_ne_zero (by rintro rfl; omega)
    have hsucc : (k + 1) * d = d * k + d := by rw [Nat.add_mul, Nat.one_mul, Nat.mul_comm k d]
    rw [hsucc] at hlow hhigh hodd hbelow
    obtain ⟨hdiv, hmod⟩ := hfloor (f := k) (r := n - d * k) (by omega) (by omega)
    simp only [divideToEven, hdiv, hmod]
    split
    · omega
    · split <;> omega
  · rw [Nat.mul_comm m d] at hlow hhigh hodd habove
    obtain ⟨hdiv, hmod⟩ := hfloor (f := m) (r := n - d * m) (by omega) (by omega)
    simp only [divideToEven, hdiv, hmod]
    split
    · rfl
    · split <;> omega

end Binary64

namespace Interval

open Binary64 (unitsPerOne two_pow_pos divideToEven)

theorem quartersPerOne_eq : quartersPerOne = 4 * unitsPerOne := by decide +kernel

/-- How many quarters the interval of a number reaches below it. -/
def below (x : Binary64) : Nat := if x.significand = Nat.pow 2 52 ∧ x.shift ≠ 0 then 1 else 2

theorem ofBinary64_eq (x : Binary64) : ofBinary64 x
    = ⟨(4 * x.significand - below x) * Nat.pow 2 x.shift, 4 * x.significand * Nat.pow 2 x.shift,
      (4 * x.significand + 2) * Nat.pow 2 x.shift, decide (x.significand % 2 = 0)⟩ := rfl

/-- The ends of the interval in quarters of the last place of the number.  They do not belong to it
if the significand is odd. -/
theorem bounds_of_contains {x : Binary64} {p q : Nat}
    (h : (ofBinary64 x).contains (p * quartersPerOne) q = true) :
    (4 * x.significand - below x) * (q * Nat.pow 2 x.shift) ≤ 4 * (p * unitsPerOne) ∧
      4 * (p * unitsPerOne) ≤ (4 * x.significand + 2) * (q * Nat.pow 2 x.shift) ∧
      (x.significand % 2 = 1 →
        (4 * x.significand - below x) * (q * Nat.pow 2 x.shift) < 4 * (p * unitsPerOne) ∧
          4 * (p * unitsPerOne) < (4 * x.significand + 2) * (q * Nat.pow 2 x.shift)) := by
  have hscaled : p * quartersPerOne = 4 * (p * unitsPerOne) := by
    rw [quartersPerOne_eq, Nat.mul_left_comm]
  have hends (n : Nat) : n * Nat.pow 2 x.shift * q = n * (q * Nat.pow 2 x.shift) := by
    rw [Nat.mul_assoc, Nat.mul_comm q]
  rw [contains, ofBinary64_eq, hscaled] at h
  simp only [hends] at h
  split at h
  · rename_i heven
    have heven := of_decide_eq_true heven
    obtain ⟨hlow, hhigh⟩ := of_decide_eq_true h
    exact ⟨hlow, hhigh, fun hodd => absurd hodd (by omega)⟩
  · obtain ⟨hlow, hhigh⟩ := of_decide_eq_true h
    exact ⟨Nat.le_of_lt hlow, Nat.le_of_lt hhigh, fun _ => ⟨hlow, hhigh⟩⟩

theorem below_le (x : Binary64) : below x ≤ 2 := by
  rw [below]
  split <;> decide

section

variable {x : Binary64} {p q : Nat}

/-- A quotient in the interval of a number has the significand of that number, when it has its
shift. -/
theorem divideToEven_of_contains (hq : 0 < q)
    (h : (ofBinary64 x).contains (p * quartersPerOne) q = true) :
    divideToEven (p * unitsPerOne) (q * Nat.pow 2 x.shift) = x.significand := by
  obtain ⟨hlow, hhigh, hodd⟩ := bounds_of_contains h
  have hlowest := Nat.mul_le_mul_right (q * Nat.pow 2 x.shift)
    (Nat.sub_le_sub_left (below_le x) (4 * x.significand))
  rw [Nat.sub_mul, Nat.mul_assoc] at hlowest
  rw [Nat.add_mul, Nat.mul_assoc] at hhigh hodd
  exact Binary64.divideToEven_eq (Nat.mul_pos hq (two_pow_pos _)) (by omega) (by omega) (by omega)

/-- The interval of a number ends below the next binade. -/
theorem lt_of_contains (hq : 0 < q) (h : (ofBinary64 x).contains (p * quartersPerOne) q = true) :
    p * unitsPerOne < Nat.pow 2 53 * (q * Nat.pow 2 x.shift) := by
  obtain ⟨-, hhigh, -⟩ := bounds_of_contains h
  have hpos : 0 < q * Nat.pow 2 x.shift := Nat.mul_pos hq (two_pow_pos _)
  have hsignificand := x.significand_lt
  have htop := Nat.mul_le_mul_right (q * Nat.pow 2 x.shift)
    (show (4 * x.significand + 2) + 2 ≤ 4 * Nat.pow 2 53 by omega)
  rw [Nat.add_mul, Nat.mul_assoc 4 (Nat.pow 2 53)] at htop
  omega

/-- Where the interval of a number reaches into the binade below, the number is a power of two. -/
theorem significand_of_less (hshift : x.shift ≠ 0)
    (h : (ofBinary64 x).contains (p * quartersPerOne) q = true)
    (hless : p * unitsPerOne < Nat.pow 2 52 * (q * Nat.pow 2 x.shift)) :
    x.significand = Nat.pow 2 52 := by
  obtain ⟨hlow, -, -⟩ := bounds_of_contains h
  rcases Nat.eq_or_lt_of_le (Binary64.le_significand hshift) with heq | hlt
  · exact heq.symm
  · have hbelow := below_le x
    have hlowest := Nat.mul_le_mul_right (q * Nat.pow 2 x.shift)
      (show 4 * Nat.pow 2 52 ≤ 4 * x.significand - below x by omega)
    rw [Nat.mul_assoc] at hlowest
    omega

/-- There, too, a quotient is rounded to the power of two. -/
theorem nearest_of_less (hq : 0 < q) (hshift : x.shift ≠ 0)
    (h : (ofBinary64 x).contains (p * quartersPerOne) q = true)
    (hless : p * unitsPerOne < Nat.pow 2 52 * (q * Nat.pow 2 x.shift)) :
    Binary64.nearest p q = x.magnitude := by
  have hleast := significand_of_less hshift h hless
  have hbelow : below x = 1 := if_pos ⟨hleast, hshift⟩
  obtain ⟨k, hk⟩ : ∃ k, x.shift = k + 1 := Nat.exists_eq_add_one_of_ne_zero hshift
  have hhalf : q * Nat.pow 2 x.shift = 2 * (q * Nat.pow 2 k) := by
    rw [hk, Nat.mul_left_comm]
    exact congrArg (q * ·) Nat.pow_succ'
  have h52 : Nat.pow 2 52 = 4503599627370496 := rfl
  have h53 : Nat.pow 2 53 = 9007199254740992 := rfl
  obtain ⟨hlow, -, -⟩ := bounds_of_contains h
  rw [hleast, hbelow, hhalf, h52] at hlow
  rw [hhalf, h52] at hless
  have hround : divideToEven (p * unitsPerOne) (q * Nat.pow 2 k) = Nat.pow 2 53 := by
    refine Binary64.divideToEven_eq (Nat.mul_pos hq (two_pow_pos _)) ?_ ?_ nofun
    · rw [h53]
      omega
    · rw [h53]
      omega
  rw [Binary64.nearest_of_shift hq (by rw [h53]; omega) (fun _ => by rw [h52]; omega) hround,
    ← Binary64.shift_mul_add_significand, hk, hleast, h52, h53]
  omega

/-- **A quotient in the interval of a number is rounded to that number.** -/
theorem nearest_eq (hq : 0 < q) (h : (ofBinary64 x).contains (p * quartersPerOne) q = true) :
    Binary64.nearest p q = x.magnitude := by
  by_cases hless : x.shift ≠ 0 ∧ p * unitsPerOne < Nat.pow 2 52 * (q * Nat.pow 2 x.shift)
  · exact nearest_of_less hq hless.1 h hless.2
  · have hlow (hshift : x.shift ≠ 0) := Nat.le_of_not_lt fun hlt => hless ⟨hshift, hlt⟩
    rw [Binary64.nearest_of_shift hq (lt_of_contains hq h) hlow (divideToEven_of_contains hq h),
      Binary64.shift_mul_add_significand]

end

end Interval

/-! ## Decimals

The value of a decimal is a quotient of natural numbers, with the power of ten above or below the
line. -/

namespace Scaled

/-- The numerator of the value. -/
def numerator (s : Scaled) : Nat :=
  match s.exponent with
  | .ofNat n => s.significand * Nat.pow 10 n
  | .negSucc _ => s.significand

/-- The denominator of the value. -/
def denominator (s : Scaled) : Nat :=
  match s.exponent with
  | .ofNat _ => 1
  | .negSucc n => Nat.pow 10 (n + 1)

/-- The number nearest to the value. -/
def rounded (s : Scaled) : Option Binary64 := Binary64.ofRatio false s.numerator s.denominator

theorem denominator_pos (s : Scaled) : 0 < s.denominator := by
  rw [denominator]
  split
  · exact Nat.one_pos
  · exact Nat.pow_pos (by decide)

theorem numerator_zero (exponent : Int) : numerator ⟨0, exponent⟩ = 0 := by
  cases exponent with
  | ofNat n => exact Nat.zero_mul _
  | negSucc n => rfl

end Scaled

/-- The significand with the power of ten. -/
def Decimal.scaled (d : Decimal) : Scaled := ⟨d.significand, d.exponent⟩

/-! ## What a search finds

Every candidate of a search is tested against the interval, so whatever is found is inside. -/

namespace Interval

open Binary64 (two_pow_pos)

theorem contains_of_nearestMultiple {i : Interval} {p q c : Nat}
    (h : i.nearestMultiple p q = some c) : i.contains (c * p) q = true := by
  simp only [nearestMultiple] at h
  split at h
  · rename_i hbelow habove
    split at h
    · rw [← Option.some.inj h]
      exact hbelow
    · rw [← Option.some.inj h]
      exact habove
  · rename_i hbelow _
    rw [← Option.some.inj h]
    exact hbelow
  · rename_i _ habove
    rw [← Option.some.inj h]
    exact habove
  · exact nomatch h

/-- The interval contains the value of the decimal. -/
def Holds (i : Interval) (d : Decimal) : Prop :=
  i.contains (d.scaled.numerator * quartersPerOne) d.scaled.denominator = true

theorem holds_of_onGrid {i : Interval} {exponent : Int} {d : Decimal}
    (h : i.onGrid exponent = some d) : i.Holds d := by
  obtain ⟨c, hc, rfl⟩ := Option.map_eq_some_iff.mp h
  cases exponent with
  | ofNat n =>
    have hcontains := contains_of_nearestMultiple hc
    rw [← Nat.mul_assoc] at hcontains
    exact hcontains
  | negSucc n => exact contains_of_nearestMultiple hc

/-- The coarsest decimal of an interval is in the interval. -/
theorem holds_of_coarsest {i : Interval} (n : Nat) {exponent : Int} {d : Decimal}
    (h : i.coarsest exponent n = some d) : i.Holds d := by
  induction n generalizing exponent with
  | zero => exact holds_of_onGrid h
  | succ n ih =>
    rw [coarsest] at h
    split at h
    · rename_i hgrid
      rw [← Option.some.inj h]
      exact holds_of_onGrid hgrid
    · exact ih h

/-- Zero is in no interval that starts above it. -/
theorem not_contains_zero {i : Interval} (hlow : 0 < i.low) {q : Nat} (hq : 0 < q) :
    i.contains 0 q = false := by
  have hpos : 0 < i.low * q := Nat.mul_pos hlow hq
  rw [contains]
  split <;> simp only [decide_eq_false_iff_not] <;> omega

theorem significand_pos_of_holds {i : Interval} (hlow : 0 < i.low) {d : Decimal} (h : i.Holds d) :
    0 < d.significand := by
  refine Nat.pos_of_ne_zero fun hzero => ?_
  rw [Holds, Decimal.scaled, hzero, Scaled.numerator_zero, Nat.zero_mul,
    not_contains_zero hlow (Scaled.denominator_pos _)] at h
  exact nomatch h

theorem low_pos {x : Binary64} (h : 0 < x.significand) : 0 < (ofBinary64 x).low := by
  have hbelow := below_le x
  rw [ofBinary64_eq]
  exact Nat.mul_pos (by omega) (two_pow_pos x.shift)

/-! ## Where a search ends

It ends on a grid that is fine enough, and the finest grid of the search is finer than the narrowest
of intervals. -/

/-- On a grid that is finer than the lower half of an interval, the multiple just below the centre
is in the interval. -/
theorem isSome_nearestMultiple {i : Interval} {p q : Nat} (hp : 0 < p) (hq : 0 < q)
    (hlow : i.low * q + p < i.centre * q) (hhigh : i.centre < i.high) :
    (i.nearestMultiple p q).isSome := by
  have hfloor := Nat.div_add_mod (i.centre * q) p
  have hrest := Nat.mod_lt (i.centre * q) hp
  have hhigh := Nat.mul_lt_mul_of_pos_right hhigh hq
  rw [Nat.mul_comm p] at hfloor
  have hbelow : i.contains (i.centre * q / p * p) q = true := by
    rw [contains]
    split <;> exact decide_eq_true (by omega)
  simp only [nearestMultiple, hbelow]
  split
  · split <;> rfl
  · rfl
  · rfl
  · contradiction

theorem isSome_onGrid {i : Interval} {n : Nat}
    (hlow : i.low * Nat.pow 10 (n + 1) + quartersPerOne < i.centre * Nat.pow 10 (n + 1))
    (hhigh : i.centre < i.high) : (i.onGrid (.negSucc n)).isSome := by
  have hpos : 0 < quartersPerOne := by decide +kernel
  rw [onGrid, Option.isSome_map]
  exact isSome_nearestMultiple hpos (Nat.pow_pos (by decide)) hlow hhigh

/-- The search goes on up to the last grid. -/
theorem isSome_coarsest {i : Interval} (n : Nat) {exponent : Int}
    (h : (i.onGrid (exponent - n)).isSome) : (i.coarsest exponent n).isSome := by
  induction n generalizing exponent with
  | zero =>
    rw [Int.natCast_zero, Int.sub_zero] at h
    exact h
  | succ n ih =>
    rw [coarsest]
    split
    · rfl
    · refine ih ?_
      rwa [show exponent - 1 - n = exponent - (n + 1 : Nat) by omega]

theorem centre_lt_high (x : Binary64) : (ofBinary64 x).centre < (ofBinary64 x).high :=
  Nat.mul_lt_mul_of_pos_right (Nat.lt_add_of_pos_right (by decide)) (two_pow_pos x.shift)

/-- The lower half of the interval is at least half a unit wide. -/
theorem low_add_le_centre {x : Binary64} (h : 0 < x.significand) :
    (ofBinary64 x).low + 2 ≤ (ofBinary64 x).centre := by
  have hwidth : 2 ≤ below x * Nat.pow 2 x.shift := by
    rw [below]
    split
    · rename_i hleast
      obtain ⟨k, hk⟩ := Nat.exists_eq_add_one_of_ne_zero hleast.2
      rw [hk, Nat.one_mul]
      exact Nat.mul_le_mul_right 2 (two_pow_pos k)
    · exact Nat.le_mul_of_pos_right 2 (two_pow_pos x.shift)
  have hbelow := below_le x
  have hcentre : (ofBinary64 x).low + below x * Nat.pow 2 x.shift = (ofBinary64 x).centre := by
    rw [ofBinary64_eq]
    exact (Nat.add_mul _ _ _).symm.trans (congrArg (· * _) (Nat.sub_add_cancel (by omega)))
  omega

end Interval

/-! ## The shortest decimal -/

namespace Binary64

theorem significand_pos {x : Binary64} (h : x.isZero = false) : 0 < x.significand := by
  have hmagnitude : x.magnitude ≠ 0 := by
    intro hzero
    rw [isZero, hzero] at h
    exact nomatch h
  rw [significand]
  split
  · exact Nat.pos_of_ne_zero hmagnitude
  · exact Nat.add_pos_left (two_pow_pos 52) _

theorem holds_shortest {x : Binary64} {d : Decimal} (h : x.shortest = some d) :
    x.isZero = false ∧ (Interval.ofBinary64 x).Holds d := by
  rw [shortest] at h
  split at h
  · exact nomatch h
  · rename_i hzero
    exact ⟨Bool.eq_false_iff.mpr hzero, Interval.holds_of_coarsest _ h⟩

theorem significand_shortest_pos {x : Binary64} {d : Decimal} (h : x.shortest = some d) :
    0 < d.significand :=
  Interval.significand_pos_of_holds (Interval.low_pos (significand_pos (holds_shortest h).1))
    (holds_shortest h).2

/-- **Every number but the zeros has a shortest decimal.** -/
theorem isSome_shortest {x : Binary64} (h : x.isZero = false) : x.shortest.isSome := by
  have hgrid : Interval.quartersPerOne < 2 * Nat.pow 10 (323 + 1) := by decide +kernel
  have hwidth := Nat.mul_le_mul_right (Nat.pow 10 (323 + 1))
    (Interval.low_add_le_centre (significand_pos h))
  rw [Nat.add_mul] at hwidth
  rw [shortest, if_neg (Bool.eq_false_iff.mp h)]
  exact Interval.isSome_coarsest 632
    (Interval.isSome_onGrid (n := 323) (by omega) (Interval.centre_lt_high x))

/-- **The shortest decimal of a number is rounded to that number.** -/
theorem rounded_shortest {x : Binary64} {d : Decimal} (h : x.shortest = some d) :
    d.scaled.rounded = some ⟨false, x.magnitude, x.finite⟩ := by
  have hnearest := Interval.nearest_eq d.scaled.denominator_pos (holds_shortest h).2
  simp only [Scaled.rounded, ofRatio, hnearest, dif_pos x.finite]

end Binary64

end MapLayers
