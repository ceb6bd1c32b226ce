import MapLayers.Json
import MapLayers.Number.Binary64

/-!
# The shortest literal that denotes a number

Around every binary64 number lies the interval of the reals that round to it; its ends belong to it
when the significand is even.  The shortest decimal is the multiple of a power of ten in that
interval whose power is the greatest possible, and of two such multiples the nearer one, a tie going
to the even one.

All comparisons are exact.  Lengths are measured in quarters of `2 ^ -1074`, so that the number and
both ends of its interval are natural numbers (`Interval.ofBinary64`); a quarter is needed below a
power of two, where the next number is half as far away.  `Interval.coarsest` tries the powers from
`10 ^ 308` downwards, and takes the first that has a multiple in the interval.

The literal is positional from `0.00001` up to below `10 ^ 16`, always with a point, and has one
digit before the point and a signed exponent elsewhere (`Decimal.toNumeral`).  The zeros have no
shortest decimal and literals of their own.
-/

set_option autoImplicit false

namespace MapLayers

/-- The reals that round to a number, in quarters of `2 ^ -1074`. -/
structure Interval where
  /-- The lower end. -/
  low : Nat
  /-- The number itself. -/
  centre : Nat
  /-- The upper end. -/
  high : Nat
  /-- Whether the ends belong to the interval. -/
  closed : Bool
deriving DecidableEq, Repr

/-- A significand with a power of ten. -/
structure Decimal where
  /-- The significand. -/
  significand : Nat
  /-- The power of ten that it is multiplied by. -/
  exponent : Int
deriving DecidableEq, Repr

namespace Interval

/-- The interval of a number's absolute value.  The next smaller number is half as far away as the
next greater one when the significand is the least of its binade. -/
def ofBinary64 (x : Binary64) : Interval :=
  let m := x.significand
  let quarter := Nat.pow 2 x.shift
  let below := if m = Nat.pow 2 52 ∧ x.shift ≠ 0 then 1 else 2
  ⟨(4 * m - below) * quarter, 4 * m * quarter, (4 * m + 2) * quarter, m % 2 = 0⟩

/-- Whether `p / q` lies in the interval. -/
def contains (i : Interval) (p q : Nat) : Bool :=
  if i.closed then i.low * q ≤ p ∧ p ≤ i.high * q else i.low * q < p ∧ p < i.high * q

/-- The number of quarters in one. -/
def quartersPerOne : Nat := Nat.pow 2 1076

/-- The multiple of `p / q` in the interval that is nearest to its centre, as the factor of
`p / q`; of two equally near, the even one. -/
def nearestMultiple (i : Interval) (p q : Nat) : Option Nat :=
  let floor := i.centre * q / p
  let below := floor * p
  let above := (floor + 1) * p
  match i.contains below q, i.contains above q with
  | true, true =>
    let before := i.centre * q - below
    let after := above - i.centre * q
    if before < after ∨ (before = after ∧ floor % 2 = 0) then some floor else some (floor + 1)
  | true, false => some floor
  | false, true => some (floor + 1)
  | false, false => none

/-- The nearest multiple of `10 ^ exponent` in the interval. -/
def onGrid (i : Interval) (exponent : Int) : Option Decimal :=
  (match exponent with
    | .ofNat n => i.nearestMultiple (Nat.pow 10 n * quartersPerOne) 1
    | .negSucc n => i.nearestMultiple quartersPerOne (Nat.pow 10 (n + 1))).map
      fun c => ⟨c, exponent⟩

/-- The decimal of the greatest power of ten among `10 ^ exponent` and the `n` powers below it that
have a multiple in the interval. -/
def coarsest (i : Interval) (exponent : Int) : Nat → Option Decimal
  | 0 => i.onGrid exponent
  | n + 1 =>
    match i.onGrid exponent with
    | some d => some d
    | none => coarsest i (exponent - 1) n

end Interval

namespace Decimal

/-- The exponents of ten that are written positionally, as bounds on the exponent of the first
digit. -/
def positional : Int × Int := (-5, 15)

/-- The literal of a decimal other than zero. -/
def toNumeral (negative : Bool) (d : Decimal) : Numeral :=
  let digits := Numeral.digitsOf d.significand
  let leading := d.exponent + digits.length - 1
  if positional.1 ≤ leading ∧ leading ≤ positional.2 then
    match d.exponent with
    | .ofNat n => ⟨negative, digits ++ List.replicate n Digit.zero, [Digit.zero], none⟩
    | .negSucc n =>
      let places := n + 1
      if places < digits.length then
        ⟨negative, digits.take (digits.length - places), digits.drop (digits.length - places), none⟩
      else
        ⟨negative, [Digit.zero],
          List.replicate (places - digits.length) Digit.zero ++ digits, none⟩
  else ⟨negative, digits.take 1, digits.drop 1, some leading⟩

end Decimal

namespace Binary64

/-- The shortest decimal that rounds to the absolute value; none for zero. -/
def shortest (x : Binary64) : Option Decimal :=
  if x.isZero then none else (Interval.ofBinary64 x).coarsest 308 632

/-- The literal of a number: `0.0` or `-0.0` for the zeros, else that of the shortest decimal. -/
def toNumeral (x : Binary64) : Numeral :=
  match x.shortest with
  | none => ⟨x.negative, [Digit.zero], [Digit.zero], none⟩
  | some d => d.toNumeral x.negative

end Binary64

namespace Json

/-- The value of a binary64 number. -/
def real (x : Binary64) : Json := .number x.toNumeral

end Json

end MapLayers
