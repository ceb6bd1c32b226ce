import MapLayers.Json
import MapLayers.Number.Binary64

/-!
# The number that a literal stands for

A literal is read as `significand * 10 ^ exponent` with a significand of at most 64 bits, in two
rounded steps: the significand becomes the nearest binary64 number, which is then multiplied or
divided by the binary64 number nearest to the power of ten.  So a literal of up to fifteen digits
and a modest exponent denotes the number nearest to it, and a longer one can be off by a unit in the
last place.

* Digits are taken while the significand fits in 64 bits.  Of the digits before the point, each one
  that no longer fits raises the exponent by one; of those after the point, the first that does not
  fit ends the significand.
* Powers beyond `10 ^ 308` are out of range for a significand other than zero; powers below `10 ^
  -308` are applied in steps of `10 ^ -308` until what is left is zero or within reach.
* A literal without point and exponent that fits in 64 bits is the nearest number to that integer.
  The literal `-0` is the negative zero.

Where a whole number is wanted, a literal is not rounded at all: `Numeral.toNat?` takes one without
sign, point and exponent for what it spells.
-/

set_option autoImplicit false

namespace MapLayers

/-- A significand with a power of ten. -/
structure Scaled where
  /-- The significand. -/
  significand : Nat
  /-- The power of ten that it is multiplied by. -/
  exponent : Int
deriving DecidableEq, Repr

namespace Scaled

/-- Significands lie below this bound. -/
def bound : Nat := Nat.pow 2 64

/-- Take up the digits before the point.  Once a digit does not fit, it and all that follow only
count towards the exponent. -/
def ofWhole (n : Nat) : List Digit → Scaled
  | [] => ⟨n, 0⟩
  | d :: ds =>
    if 10 * n + d.val < bound then ofWhole (10 * n + d.val) ds else ⟨n, (ds.length + 1 : Nat)⟩

/-- Take up the digits after the point, as long as they fit. -/
def addFraction (s : Scaled) : List Digit → Scaled
  | [] => s
  | d :: ds =>
    if 10 * s.significand + d.val < bound then
      addFraction ⟨10 * s.significand + d.val, s.exponent - 1⟩ ds
    else s

/-- The significand and power of ten of a literal. -/
def ofNumeral (n : Numeral) : Scaled :=
  let s := addFraction (ofWhole 0 n.whole) n.fraction
  ⟨s.significand, s.exponent + n.exponent.getD 0⟩

/-- The largest power of ten that is applied in one step. -/
def step : Nat := 308

/-- Divide by `10 ^ 308` so many times, stopping at zero. -/
def shrink : Nat → Binary64 → Option Binary64
  | 0, x => some x
  | n + 1, x =>
    if x.isZero then some x
    else do shrink n (← x.div (← Binary64.powerOfTen step))

/-- The number that a significand with a power of ten is read as. -/
def toBinary64 (s : Scaled) : Option Binary64 := do
  let x ← Binary64.ofNat s.significand
  match s.exponent with
  | .ofNat n =>
    if n ≤ step then x.mul (← Binary64.powerOfTen n)
    else if x.isZero then some x
    else none
  | .negSucc n =>
    let y ← shrink (n / step) x
    y.div (← Binary64.powerOfTen (n % step + 1))

end Scaled

namespace Numeral

/-- The number that a literal stands for, or `none` when it is out of range. -/
def toBinary64 (n : Numeral) : Option Binary64 :=
  (Scaled.ofNumeral n).toBinary64.map fun x => ⟨n.negative, x.magnitude, x.finite⟩

/-- The natural number that a literal spells, for one without sign, point and exponent. -/
def toNat? (n : Numeral) : Option Nat :=
  if n.isWhole && !n.negative then some (digitsValue n.whole) else none

end Numeral

end MapLayers
