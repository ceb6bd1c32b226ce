import MapLayers.Json

/-!
# Reading JSON texts

`Json.read` accepts strict JSON: blanks are the space, tab, line feed and carriage return; no
leading zeros, no raw control characters in strings, no trailing commas, no comments, and nothing
after the value but blanks.  Nesting is not limited here, and a literal with half of a surrogate
pair is accepted as one that denotes no text; both are for the reader of records to judge.

Every reader takes a list of characters and returns what it read with the characters that follow.  A
quoted literal is read in two steps: `Json.readPieces` undoes the escapes, leaving surrogates as
they are, and `Json.joinPieces` makes characters of the pairs.

The readers of values, items and members call each other, and the text does not get shorter at each
call, so they are given fuel, of which every call takes one.  Twice the length of the text is always
enough.
-/

set_option autoImplicit false

namespace MapLayers

namespace Json

/-! ## Blanks and digits -/

/-- The four blank characters between tokens. -/
def isBlank (c : Char) : Bool := c == ' ' || c == '\t' || c == '\n' || c == '\r'

/-- Drop leading blanks. -/
def skipBlanks (cs : List Char) : List Char := cs.dropWhile isBlank

/-- The digit that a character writes. -/
def digit? (c : Char) : Option Digit :=
  if h : 48 ≤ c.toNat ∧ c.toNat ≤ 57 then some ⟨c.toNat - 48, by omega⟩ else none

/-- The longest run of digits, and what follows it. -/
def readDigits : List Char → List Digit × List Char
  | [] => ([], [])
  | c :: cs =>
    match digit? c with
    | some d => let (ds, rest) := readDigits cs; (d :: ds, rest)
    | none => ([], c :: cs)

/-- The value of a hexadecimal digit of either case. -/
def hexValue? (c : Char) : Option Nat :=
  let n := c.toNat
  if 48 ≤ n ∧ n ≤ 57 then some (n - 48)
  else if 97 ≤ n ∧ n ≤ 102 then some (n - 87)
  else if 65 ≤ n ∧ n ≤ 70 then some (n - 55)
  else none

/-! ## Quoted literals

An escape with four hexadecimal digits names a unit, which is a character or half of a surrogate
pair.  Halves are kept until all pieces are known, and then have to come in pairs. -/

/-- A character of a quoted literal, or a surrogate that an escape names. -/
inductive Piece where
  | char (c : Char)
  | surrogate (unit : Nat)

/-- What an escape of four hexadecimal digits names. -/
def Piece.ofUnit (n : Nat) : Piece :=
  if 0xD800 ≤ n ∧ n < 0xE000 then .surrogate n else .char (Char.ofNat n)

/-- The character that a one-letter escape stands for. -/
def escaped? : Char → Option Char
  | '"' => some '"'
  | '\\' => some '\\'
  | '/' => some '/'
  | 'b' => some '\x08'
  | 'f' => some '\x0c'
  | 'n' => some '\n'
  | 'r' => some '\r'
  | 't' => some '\t'
  | _ => none

/-- Read the rest of a quoted literal, up to its closing quote, onto the pieces read so far. -/
def readPieces (before : List Piece) : List Char → Option (List Piece × List Char)
  | [] => none
  | '"' :: rest => some (before.reverse, rest)
  | '\\' :: 'u' :: a :: b :: c :: d :: rest =>
    match hexValue? a, hexValue? b, hexValue? c, hexValue? d with
    | some a, some b, some c, some d =>
      readPieces (Piece.ofUnit (((a * 16 + b) * 16 + c) * 16 + d) :: before) rest
    | _, _, _, _ => none
  | '\\' :: e :: rest =>
    match escaped? e with
    | some c => readPieces (.char c :: before) rest
    | none => none
  | c :: rest => if c.toNat < 0x20 then none else readPieces (.char c :: before) rest

/-- The characters that the pieces denote, if every surrogate is part of a pair: a high one directly
followed by a low one. -/
def joinPieces : List Piece → Option (List Char)
  | [] => some []
  | .char c :: rest => (joinPieces rest).map (c :: ·)
  | .surrogate high :: .surrogate low :: rest =>
    if high < 0xDC00 ∧ 0xDC00 ≤ low then
      (joinPieces rest).map
        (Char.ofNat (0x10000 + (high - 0xD800) * 0x400 + (low - 0xDC00)) :: ·)
    else none
  | .surrogate _ :: _ => none

/-- Read a quoted literal after its opening quote. -/
def readQuoted (cs : List Char) : Option (Quoted × List Char) :=
  (readPieces [] cs).map fun (pieces, rest) => ((joinPieces pieces).map String.ofList, rest)

/-! ## Number literals -/

/-- The digits before the point: a lone zero, or digits that do not start with zero. -/
def readWhole (cs : List Char) : Option (List Digit × List Char) :=
  match readDigits cs with
  | ([], _) => none
  | (d :: e :: ds, rest) => if d = Digit.zero then none else some (d :: e :: ds, rest)
  | (ds, rest) => some (ds, rest)

/-- The digits after the point, if a point comes next. -/
def readFraction : List Char → Option (List Digit × List Char)
  | '.' :: cs =>
    match readDigits cs with
    | ([], _) => none
    | (ds, rest) => some (ds, rest)
  | cs => some ([], cs)

/-- The digits of an exponent, after its sign. -/
def readExponentDigits (cs : List Char) : Option (Nat × List Char) :=
  match readDigits cs with
  | ([], _) => none
  | (ds, rest) => some (Numeral.digitsValue ds, rest)

/-- The exponent with its sign, after the letter. -/
def readSignedExponent : List Char → Option (Int × List Char)
  | '-' :: cs => (readExponentDigits cs).map fun (n, rest) => (-(n : Int), rest)
  | '+' :: cs => (readExponentDigits cs).map fun (n, rest) => ((n : Int), rest)
  | cs => (readExponentDigits cs).map fun (n, rest) => ((n : Int), rest)

/-- The exponent, if one comes next. -/
def readExponent : List Char → Option (Option Int × List Char)
  | 'e' :: cs => (readSignedExponent cs).map fun (n, rest) => (some n, rest)
  | 'E' :: cs => (readSignedExponent cs).map fun (n, rest) => (some n, rest)
  | cs => some (none, cs)

/-- Read a number literal after its sign. -/
def readUnsigned (negative : Bool) (cs : List Char) : Option (Numeral × List Char) := do
  let (whole, cs) ← readWhole cs
  let (fraction, cs) ← readFraction cs
  let (exponent, cs) ← readExponent cs
  return (⟨negative, whole, fraction, exponent⟩, cs)

/-- Read a number literal. -/
def readNumeral : List Char → Option (Numeral × List Char)
  | '-' :: cs => readUnsigned true cs
  | cs => readUnsigned false cs

/-! ## Values

Blanks are dropped before every value and after every item. -/

mutual

/-- Read a value that starts at the first character.  The fuel bounds the nesting and the number of
items; twice the number of characters is enough. -/
def readValue : Nat → List Char → Option (Json × List Char)
  | 0, _ => none
  | fuel + 1, cs =>
    match cs with
    | '"' :: rest => (readQuoted rest).map fun (s, rest) => (.string s, rest)
    | '[' :: rest =>
      match skipBlanks rest with
      | ']' :: rest => some (.array [], rest)
      | rest => (readItems fuel rest).map fun (items, rest) => (.array items, rest)
    | '\x7b' :: rest =>
      match skipBlanks rest with
      | '\x7d' :: rest => some (.object [], rest)
      | rest => (readMembers fuel rest).map fun (members, rest) => (.object members, rest)
    | 't' :: 'r' :: 'u' :: 'e' :: rest => some (.bool true, rest)
    | 'f' :: 'a' :: 'l' :: 's' :: 'e' :: rest => some (.bool false, rest)
    | 'n' :: 'u' :: 'l' :: 'l' :: rest => some (.null, rest)
    | cs => (readNumeral cs).map fun (n, rest) => (.number n, rest)

/-- Read the items of an array, at least one, up to its closing bracket. -/
def readItems : Nat → List Char → Option (List Json × List Char)
  | 0, _ => none
  | fuel + 1, cs => do
    let (item, rest) ← readValue fuel cs
    match skipBlanks rest with
    | ']' :: rest => some ([item], rest)
    | ',' :: rest =>
      let (items, rest) ← readItems fuel (skipBlanks rest)
      some (item :: items, rest)
    | _ => none

/-- Read the members of an object, at least one, up to its closing brace. -/
def readMembers : Nat → List Char → Option (List (Quoted × Json) × List Char)
  | 0, _ => none
  | fuel + 1, cs =>
    match cs with
    | '"' :: cs => do
      let (key, rest) ← readQuoted cs
      match skipBlanks rest with
      | ':' :: rest =>
        let (value, rest) ← readValue fuel (skipBlanks rest)
        match skipBlanks rest with
        | '\x7d' :: rest => some ([(key, value)], rest)
        | ',' :: rest =>
          let (members, rest) ← readMembers fuel (skipBlanks rest)
          some ((key, value) :: members, rest)
        | _ => none
      | _ => none
    | _ => none

end

/-- Read a whole text: one value between blanks. -/
def readChars (cs : List Char) : Option Json := do
  let (value, rest) ← readValue (2 * cs.length + 2) (skipBlanks cs)
  if (skipBlanks rest).isEmpty then some value else none

/-- Read a whole text: one value between blanks. -/
def read (s : String) : Option Json := readChars s.toList

end Json

end MapLayers
