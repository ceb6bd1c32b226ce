import MapLayers.Json

/-!
# Writing JSON texts

Two layouts of one value: `Json.compact` puts everything on one line without blanks, and
`Json.pretty` puts every item and member on a line of its own, indented by two spaces a level, with
empty arrays and objects as `[]` and an empty pair of braces.

A string escapes the quote, the backslash and the characters below U+0020, and nothing else.  A
number is written as its literal says, with the sign of the exponent always present.

Every writer puts its text before the text that is to follow, so that no text is copied twice.  That
it does nothing else with what follows is `Json.write_append`, with one lemma for each of the
writers that it calls; with these a text can be taken apart at any point.
-/

set_option autoImplicit false

namespace MapLayers

namespace Json

/-! ## Numbers -/

/-- The character of a digit. -/
def digitChar (d : Digit) : Char := Char.ofNat (48 + d.val)

/-- Write digits. -/
def writeDigits (ds : List Digit) (rest : List Char) : List Char := ds.map digitChar ++ rest

/-- Write an exponent, with its sign. -/
def writeExponent : Option Int → List Char → List Char
  | none, rest => rest
  | some (.ofNat n), rest => 'e' :: '+' :: writeDigits (Numeral.digitsOf n) rest
  | some (.negSucc n), rest => 'e' :: '-' :: writeDigits (Numeral.digitsOf (n + 1)) rest

/-- Write the digits after the point, and the point if there are any. -/
def writeFraction : List Digit → List Char → List Char
  | [], rest => rest
  | ds, rest => '.' :: writeDigits ds rest

/-- Write a number literal. -/
def writeNumeral (n : Numeral) (rest : List Char) : List Char :=
  let body := writeDigits n.whole (writeFraction n.fraction (writeExponent n.exponent rest))
  if n.negative then '-' :: body else body

/-! ## Strings -/

/-- A lowercase hexadecimal digit. -/
def hexChar (n : Nat) : Char := Nat.digitChar (n % 16)

/-- Write a character of a string. -/
def writeChar (c : Char) (rest : List Char) : List Char :=
  if c = '"' then '\\' :: '"' :: rest
  else if c = '\\' then '\\' :: '\\' :: rest
  else if c = '\x08' then '\\' :: 'b' :: rest
  else if c = '\x0c' then '\\' :: 'f' :: rest
  else if c = '\n' then '\\' :: 'n' :: rest
  else if c = '\r' then '\\' :: 'r' :: rest
  else if c = '\t' then '\\' :: 't' :: rest
  else if c.toNat < 0x20 then
    '\\' :: 'u' :: '0' :: '0' :: hexChar (c.toNat / 16) :: hexChar c.toNat :: rest
  else c :: rest

/-- Write a quoted string. -/
def writeText (s : String) (rest : List Char) : List Char :=
  '"' :: s.toList.foldr writeChar ('"' :: rest)

/-- Write a quoted literal.  One that denotes no text is written as a lone surrogate. -/
def writeQuoted : Quoted → List Char → List Char
  | some s, rest => writeText s rest
  | none, rest => '"' :: '\\' :: 'u' :: 'd' :: '8' :: '0' :: '0' :: '"' :: rest

/-! ## One line

What follows a text is an argument of its writer.  For an array these are its further items, the
bracket and whatever comes after it. -/

mutual

/-- Write a value on one line. -/
def write : Json → List Char → List Char
  | .null, rest => 'n' :: 'u' :: 'l' :: 'l' :: rest
  | .bool true, rest => 't' :: 'r' :: 'u' :: 'e' :: rest
  | .bool false, rest => 'f' :: 'a' :: 'l' :: 's' :: 'e' :: rest
  | .number n, rest => writeNumeral n rest
  | .string s, rest => writeQuoted s rest
  | .array [], rest => '[' :: ']' :: rest
  | .array (item :: items), rest => '[' :: write item (writeItems items (']' :: rest))
  | .object [], rest => '\x7b' :: '\x7d' :: rest
  | .object ((key, value) :: members), rest =>
    '\x7b' :: writeQuoted key (':' :: write value (writeMembers members ('\x7d' :: rest)))

/-- Write the items after the first, each after a comma. -/
def writeItems : List Json → List Char → List Char
  | [], rest => rest
  | item :: items, rest => ',' :: write item (writeItems items rest)

/-- Write the members after the first, each after a comma. -/
def writeMembers : List (Quoted × Json) → List Char → List Char
  | [], rest => rest
  | (key, value) :: members, rest =>
    ',' :: writeQuoted key (':' :: write value (writeMembers members rest))

end

theorem writeDigits_append (ds : List Digit) (rest : List Char) :
    writeDigits ds rest = writeDigits ds [] ++ rest := by simp [writeDigits]

theorem writeExponent_append (e : Option Int) (rest : List Char) :
    writeExponent e rest = writeExponent e [] ++ rest := by
  match e with
  | none => rfl
  | some (.ofNat n) => simp [writeExponent, writeDigits]
  | some (.negSucc n) => simp [writeExponent, writeDigits]

theorem writeFraction_append (ds : List Digit) (rest : List Char) :
    writeFraction ds rest = writeFraction ds [] ++ rest := by
  cases ds <;> simp [writeFraction, writeDigits]

theorem writeNumeral_append (n : Numeral) (rest : List Char) :
    writeNumeral n rest = writeNumeral n [] ++ rest := by
  have h : writeDigits n.whole (writeFraction n.fraction (writeExponent n.exponent rest)) =
      writeDigits n.whole (writeFraction n.fraction (writeExponent n.exponent [])) ++ rest := by
    rw [writeDigits_append, writeFraction_append, writeExponent_append,
      writeDigits_append n.whole (writeFraction _ (writeExponent _ [])),
      writeFraction_append n.fraction (writeExponent _ [])]
    simp
  simp only [writeNumeral]
  rw [h]
  split <;> rfl

theorem writeChar_append (c : Char) (rest : List Char) :
    writeChar c rest = writeChar c [] ++ rest := by
  simp only [writeChar]
  repeat' split
  all_goals rfl

theorem foldr_writeChar_append (cs rest : List Char) :
    cs.foldr writeChar rest = cs.foldr writeChar [] ++ rest := by
  induction cs with
  | nil => rfl
  | cons c cs ih =>
    simp only [List.foldr_cons]
    rw [ih, writeChar_append, writeChar_append c (cs.foldr writeChar [])]
    simp

theorem writeQuoted_append (s : Quoted) (rest : List Char) :
    writeQuoted s rest = writeQuoted s [] ++ rest := by
  cases s with
  | none => rfl
  | some s =>
    simp only [writeQuoted, writeText]
    rw [foldr_writeChar_append, foldr_writeChar_append _ ['"']]
    simp

mutual

/-- A writer puts its text before what follows, and does nothing else with it. -/
theorem write_append (j : Json) (rest : List Char) : write j rest = write j [] ++ rest := by
  match j with
  | .null => rfl
  | .bool true => rfl
  | .bool false => rfl
  | .number n => simp only [write]; exact writeNumeral_append n rest
  | .string s => simp only [write]; exact writeQuoted_append s rest
  | .array [] => rfl
  | .array (item :: items) =>
    simp only [write]
    rw [write_append item, writeItems_append items, write_append item (writeItems items [']']),
      writeItems_append items [']']]
    simp
  | .object [] => rfl
  | .object ((key, value) :: members) =>
    simp only [write]
    rw [writeQuoted_append, write_append value, writeMembers_append members,
      writeQuoted_append key (':' :: write value (writeMembers members ['\x7d'])),
      write_append value (writeMembers members ['\x7d']), writeMembers_append members ['\x7d']]
    simp

theorem writeItems_append (items : List Json) (rest : List Char) :
    writeItems items rest = writeItems items [] ++ rest := by
  match items with
  | [] => rfl
  | item :: items =>
    simp only [writeItems]
    rw [write_append item, writeItems_append items, write_append item (writeItems items [])]
    simp

theorem writeMembers_append (members : List (Quoted × Json)) (rest : List Char) :
    writeMembers members rest = writeMembers members [] ++ rest := by
  match members with
  | [] => rfl
  | (key, value) :: members =>
    simp only [writeMembers]
    rw [writeQuoted_append, write_append value, writeMembers_append members,
      writeQuoted_append key (':' :: write value (writeMembers members [])),
      write_append value (writeMembers members [])]
    simp

end

/-- The text of a value on one line. -/
def compact (value : Json) : String := String.ofList (write value [])

/-! ## Many lines -/

/-- Start a line at a level of nesting. -/
def writeBreak (level : Nat) (rest : List Char) : List Char :=
  '\n' :: (List.replicate (2 * level) ' ' ++ rest)

mutual

/-- Write a value that starts on a line of the given level. -/
def writePretty (level : Nat) : Json → List Char → List Char
  | .array (item :: items), rest =>
    '[' :: writeBreak (level + 1) (writePretty (level + 1) item
      (writePrettyItems (level + 1) items (writeBreak level (']' :: rest))))
  | .object ((key, value) :: members), rest =>
    '\x7b' :: writeBreak (level + 1) (writeQuoted key (':' :: ' ' :: writePretty (level + 1) value
      (writePrettyMembers (level + 1) members (writeBreak level ('\x7d' :: rest)))))
  | .array [], rest => '[' :: ']' :: rest
  | .object [], rest => '\x7b' :: '\x7d' :: rest
  | .null, rest => write .null rest
  | .bool b, rest => write (.bool b) rest
  | .number n, rest => write (.number n) rest
  | .string s, rest => write (.string s) rest

/-- Write the items after the first, each on a line of its own. -/
def writePrettyItems (level : Nat) : List Json → List Char → List Char
  | [], rest => rest
  | item :: items, rest =>
    ',' :: writeBreak level (writePretty level item (writePrettyItems level items rest))

/-- Write the members after the first, each on a line of its own. -/
def writePrettyMembers (level : Nat) : List (Quoted × Json) → List Char → List Char
  | [], rest => rest
  | (key, value) :: members, rest =>
    ',' :: writeBreak level (writeQuoted key (':' :: ' ' :: writePretty level value
      (writePrettyMembers level members rest)))

end

/-- The text of a value, one item or member a line. -/
def pretty (value : Json) : String := String.ofList (writePretty 0 value [])

end Json

end MapLayers
