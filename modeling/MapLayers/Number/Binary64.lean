/-!
# Finite binary64 numbers

Coordinates and scale bounds are binary64 numbers, and a description can only hold finite ones, so
`Binary64` is the type of the finite ones: a sign and a *magnitude*, the lower 63 bits of the
interchange format read as a natural number.  Two facts make this a convenient form.

* The magnitude grows with the absolute value, so numeric comparison is comparison of signed
  magnitudes (`Binary64.signed`).  In particular the two zeros, which are different numbers here,
  compare equal.
* Every finite number is a whole multiple of `2 ^ -1074`, so its absolute value is a natural number
  of such *units* (`Binary64.units`), and everything else is exact arithmetic on those.

`Binary64.ofRatio` gives the number nearest to a quotient, a half going to the even neighbour; it is
`none` when the quotient is out of range.  Products and quotients are the exact ones, rounded once.

Equality by `==` is numeric and an equivalence, since no number here differs from itself.  It is not
equality of records, because of the zeros.
-/

set_option autoImplicit false

namespace MapLayers

/-- The magnitudes of finite numbers lie below this bound, the bit pattern of infinity. -/
def infiniteMagnitude : Nat := 2047 * Nat.pow 2 52

/-- A finite binary64 number: its sign, and its other 63 bits read as a natural number. -/
structure Binary64 where
  /-- Whether the sign bit is set. -/
  negative : Bool
  /-- The exponent and fraction fields as one number. -/
  magnitude : Nat
  /-- The exponent field is not that of infinity. -/
  finite : magnitude < infiniteMagnitude
deriving DecidableEq, Repr

namespace Binary64

/-- The positive zero. -/
def zero : Binary64 := ⟨false, 0, by decide⟩

instance : Inhabited Binary64 := ⟨zero⟩

/-! ## Comparison -/

/-- The magnitude with the sign of the number.  It is an increasing function of the value, and
equal on the two zeros only. -/
def signed (x : Binary64) : Int := if x.negative then -(x.magnitude : Int) else x.magnitude

/-- Numeric equality, under which the two zeros are equal. -/
instance : BEq Binary64 := ⟨fun x y => x.signed == y.signed⟩

/-- Numeric order. -/
instance : LE Binary64 := ⟨fun x y => x.signed ≤ y.signed⟩

instance (x y : Binary64) : Decidable (x ≤ y) := inferInstanceAs (Decidable (x.signed ≤ y.signed))

theorem beq_iff_signed_eq (x y : Binary64) : (x == y) = true ↔ x.signed = y.signed := by
  show (x.signed == y.signed) = true ↔ _
  exact beq_iff_eq

/-- Numeric equality is an equivalence: there is nothing here that differs from itself. -/
instance : EquivBEq Binary64 where
  rfl := (beq_iff_signed_eq _ _).mpr rfl
  symm h := (beq_iff_signed_eq _ _).mpr ((beq_iff_signed_eq _ _).mp h).symm
  trans h h' :=
    (beq_iff_signed_eq _ _).mpr
      (((beq_iff_signed_eq _ _).mp h).trans ((beq_iff_signed_eq _ _).mp h'))

/-! ## Value -/

/-- How far the significand is shifted: one less than the exponent field, at least zero. -/
def shift (x : Binary64) : Nat := x.magnitude / Nat.pow 2 52 - 1

/-- The significand, with its leading bit when the exponent field is not zero. -/
def significand (x : Binary64) : Nat :=
  if x.magnitude / Nat.pow 2 52 = 0 then x.magnitude
  else Nat.pow 2 52 + x.magnitude % Nat.pow 2 52

/-- The absolute value as a multiple of `2 ^ -1074`. -/
def units (x : Binary64) : Nat := x.significand * Nat.pow 2 x.shift

/-- The number of units in one. -/
def unitsPerOne : Nat := Nat.pow 2 1074

/-- The interchange encoding: the sign in bit 63, the magnitude below. -/
def bits (x : Binary64) : Nat := (if x.negative then Nat.pow 2 63 else 0) + x.magnitude

/-! ## Rounding -/

/-- The quotient rounded to the nearest whole number, a half to the even neighbour. -/
def divideToEven (p q : Nat) : Nat :=
  let floor := p / q
  let twice := 2 * (p % q)
  if twice < q then floor
  else if q < twice then floor + 1
  else floor + floor % 2

/-- The magnitude nearest to `p / q`.  With `k` the shift that leaves a 53-bit significand, the
significand `m` contributes `k * 2 ^ 52 + m`; a significand that rounds up to `2 ^ 53` carries into
the exponent field.  The result is at least `infiniteMagnitude` when `p / q` is out of range. -/
def nearest (p q : Nat) : Nat :=
  let shift := (p * unitsPerOne / q).log2 - 52
  shift * Nat.pow 2 52 + divideToEven (p * unitsPerOne) (q * Nat.pow 2 shift)

/-- The number with the given sign nearest to `p / q`, or `none` when that is beyond the largest
finite number. -/
def ofRatio (negative : Bool) (p q : Nat) : Option Binary64 :=
  if h : nearest p q < infiniteMagnitude then some ⟨negative, nearest p q, h⟩ else none

/-- The number nearest to a natural number. -/
def ofNat (n : Nat) : Option Binary64 := ofRatio false n 1

/-- The exact product, rounded; `none` when out of range. -/
def mul (x y : Binary64) : Option Binary64 :=
  ofRatio (x.negative != y.negative) (x.units * y.units) (unitsPerOne * unitsPerOne)

/-- The exact quotient, rounded; `none` when out of range. -/
def div (x y : Binary64) : Option Binary64 :=
  ofRatio (x.negative != y.negative) x.units y.units

/-- The number nearest to `10 ^ n`, for exponents up to 308. -/
def powerOfTen (n : Nat) : Option Binary64 := ofNat (Nat.pow 10 n)

/-- Whether this is one of the two zeros. -/
def isZero (x : Binary64) : Bool := x.magnitude == 0

/-! ## Sixteen hexadecimal digits -/

/-- The hexadecimal digits of the lowest `width` nibbles, most significant first. -/
def hexDigits : Nat → Nat → List Char
  | 0, _ => []
  | width + 1, n => hexDigits width (n / 16) ++ [Nat.digitChar (n % 16)]

/-- The interchange encoding in sixteen lowercase hexadecimal digits. -/
def hex (x : Binary64) : String := String.ofList (hexDigits 16 x.bits)

end Binary64

end MapLayers
