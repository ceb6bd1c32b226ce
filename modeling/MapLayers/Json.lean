/-!
# JSON values

`Json` is what a JSON text denotes, kept close enough to the text that a reader of records can apply
rules of its own.

* A number is a `Numeral`: the digits as written.  Whether it is a whole number, and which binary
  number it stands for, is decided where it is used.
* A quoted literal can be well formed and still denote no text, because one of its escapes names
  half of a surrogate pair.  Such a literal is a `Quoted` without a text.  It does no harm where it
  is skipped and is refused where a text is needed.
* The members of an object keep their order and may repeat a key.

Digits are numbers below ten, and those of a natural number are found by division
(`Numeral.digitsOf`), with `Numeral.digitsValue` to go back.
-/

set_option autoImplicit false

namespace MapLayers

/-- A decimal digit. -/
abbrev Digit := Fin 10

/-- The digit zero. -/
abbrev Digit.zero : Digit := 0

/-- A number literal: sign, digits before and after the point, and the exponent if one is
written. -/
structure Numeral where
  /-- Whether a minus sign is written. -/
  negative : Bool
  /-- The digits before the point. -/
  whole : List Digit
  /-- The digits after the point; empty when there is no point. -/
  fraction : List Digit
  /-- The exponent, if one is written. -/
  exponent : Option Int
deriving DecidableEq, Repr, Inhabited

namespace Numeral

/-- The number that a list of digits spells. -/
def digitsValue (ds : List Digit) : Nat := ds.foldl (fun n d => 10 * n + d.val) 0

/-- The digits of a natural number, without leading zeros; zero is one digit. -/
def digitsOf (n : Nat) : List Digit :=
  if h : n < 10 then [⟨n, h⟩] else digitsOf (n / 10) ++ [⟨n % 10, Nat.mod_lt n (by decide)⟩]

/-- The literal of a natural number. -/
def ofNat (n : Nat) : Numeral := ⟨false, digitsOf n, [], none⟩

/-- Whether the literal has neither a point nor an exponent. -/
def isWhole (n : Numeral) : Bool := n.fraction.isEmpty && n.exponent.isNone

end Numeral

/-- What a quoted literal denotes: a text, or nothing when an escape in it names half of a
surrogate pair. -/
abbrev Quoted := Option String

/-- A JSON value. -/
inductive Json where
  | null
  | bool (b : Bool)
  | number (n : Numeral)
  | string (s : Quoted)
  | array (items : List Json)
  | object (members : List (Quoted × Json))
deriving Inhabited

namespace Json

/-- The value of a text. -/
def text (s : String) : Json := .string (some s)

/-- The value of a natural number. -/
def nat (n : Nat) : Json := .number (.ofNat n)

/-- An object with the given members, in order. -/
def record (members : List (String × Json)) : Json :=
  .object (members.map fun (key, value) => (some key, value))

end Json

end MapLayers
