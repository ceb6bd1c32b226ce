import MapLayers.Json.Printer
import MapLayers.Json.Reader

/-!
# Literals that read back

What is written for a literal is read as that literal, whatever follows, as long as what follows
does not go on with it.  For quoted literals nothing can, since they are closed by a quote
(`Json.readQuoted_writeText`).  A number literal has no such mark, so it is read up to a character
that cannot belong to it (`Json.EndsNumber`); and it has to be one that may be written at all,
without a zero that leads other digits (`Numeral.Legible`).

A number literal has up to four parts, and each has its reader: a sign, the digits before the point,
those after it, and an exponent.  There is one lemma for each, with the parts behind it as what
follows, and the whole is put together by `Json.readNumeral_writeNumeral`.  All of them come down to
digits being read up to where they end (`Json.readDigits_writeDigits`).

In a quoted literal a character is written as itself or as an escape, and either way it reads as
itself (`Json.readPieces_writeChar`).  Escapes with four digits are written for control characters
only, so no pair of them has to be put together to one character.
-/

set_option autoImplicit false

namespace MapLayers

namespace Numeral

/-- Digits that may stand before a point: at least one, and none after a zero that comes first. -/
def Leading : List Digit → Prop
  | [] => False
  | [_] => True
  | d :: _ :: _ => d ≠ Digit.zero

/-- A literal that is written as it is read. -/
def Legible (n : Numeral) : Prop := Leading n.whole

/-! ## The digits of a natural number

Digits are found from the last to the first, and read from the first to the last.  Both directions
meet in the digits without the last one. -/

theorem digitsValue_append (ds : List Digit) (d : Digit) :
    digitsValue (ds ++ [d]) = 10 * digitsValue ds + d.val := by
  rw [digitsValue, List.foldl_append]
  rfl

/-- **The digits of a number spell it.** -/
theorem digitsValue_digitsOf (n : Nat) : digitsValue (digitsOf n) = n := by
  induction n using Nat.strongRecOn with
  | ind n ih =>
    rw [digitsOf]
    split
    · exact Nat.zero_add n
    · rename_i h
      rw [digitsValue_append, ih (n / 10) (by omega)]
      exact Nat.div_add_mod n 10

/-- The digits of a number start with zero for zero only. -/
theorem exists_digitsOf {n : Nat} (h : n ≠ 0) :
    ∃ d ds, digitsOf n = d :: ds ∧ d ≠ Digit.zero := by
  induction n using Nat.strongRecOn with
  | ind n ih =>
    rw [digitsOf]
    split
    · exact ⟨_, [], rfl, fun heq => h (congrArg Fin.val heq)⟩
    · obtain ⟨d, ds, hds, hd⟩ := ih (n / 10) (by omega) (by omega)
      rw [hds]
      exact ⟨d, _, rfl, hd⟩

theorem exists_of_leading {ds : List Digit} (h : Leading ds) :
    ∃ first rest, ds = first :: rest := by
  cases ds with
  | nil => exact absurd h id
  | cons d ds => exact ⟨d, ds, rfl⟩

theorem leading_cons {d : Digit} (hd : d ≠ Digit.zero) (ds : List Digit) : Leading (d :: ds) := by
  cases ds with
  | nil => exact trivial
  | cons e es => exact hd

theorem leading_digitsOf (n : Nat) : Leading (digitsOf n) := by
  by_cases h : n = 0
  · subst h
    rw [digitsOf]
    exact trivial
  · obtain ⟨d, ds, hds, hd⟩ := exists_digitsOf h
    rw [hds]
    exact leading_cons hd ds

theorem legible_ofNat (n : Nat) : (ofNat n).Legible := leading_digitsOf n

end Numeral

namespace Json

open Numeral (Leading Legible digitsOf digitsValue)

/-! ## Digits

A run of digits is read as far as it goes, so it has to be known that what follows is no digit. -/

/-- The text does not go on with a digit. -/
def EndsDigits (rest : List Char) : Prop := ∀ c, rest.head? = some c → digit? c = none

/-- The text does not go on with a character of a number literal. -/
def EndsNumber (rest : List Char) : Prop :=
  ∀ c, rest.head? = some c → digit? c = none ∧ c ≠ '.' ∧ c ≠ 'e' ∧ c ≠ 'E'

theorem EndsNumber.digits {rest : List Char} (h : EndsNumber rest) : EndsDigits rest :=
  fun c hc => (h c hc).1

theorem endsDigits_cons {c : Char} {rest : List Char} (h : digit? c = none) :
    EndsDigits (c :: rest) := fun _ hd => Option.some.inj hd ▸ h

theorem digit?_digitChar : ∀ d : Digit, digit? (digitChar d) = some d := by decide

/-- **Digits are read up to where they end.** -/
theorem readDigits_writeDigits (ds : List Digit) {rest : List Char} (h : EndsDigits rest) :
    readDigits (writeDigits ds rest) = (ds, rest) := by
  rw [writeDigits]
  induction ds with
  | nil =>
    cases rest with
    | nil => rfl
    | cons c rest => rw [List.map_nil, List.nil_append, readDigits, h c rfl]
  | cons d ds ih => rw [List.map_cons, List.cons_append, readDigits, digit?_digitChar, ih]

/-! ## Number literals

The parts of a literal from the back to the front, each read with what follows it still to come. -/

theorem readWhole_writeDigits {ds : List Digit} (hds : Leading ds) {rest : List Char}
    (h : EndsDigits rest) : readWhole (writeDigits ds rest) = some (ds, rest) := by
  rw [readWhole, readDigits_writeDigits ds h]
  match ds, hds with
  | [_], _ => rfl
  | _ :: _ :: _, hfirst => exact if_neg hfirst

theorem readFraction_writeFraction (ds : List Digit) {rest : List Char} (h : EndsDigits rest)
    (hpoint : ∀ c, rest.head? = some c → c ≠ '.') :
    readFraction (writeFraction ds rest) = some (ds, rest) := by
  cases ds with
  | nil =>
    rw [writeFraction, readFraction]
    rintro cs rfl
    exact hpoint '.' rfl rfl
  | cons d ds =>
    rw [writeFraction, readFraction, readDigits_writeDigits _ h]
    exact List.cons_ne_nil d ds

theorem readExponentDigits_writeDigits (n : Nat) {rest : List Char} (h : EndsDigits rest) :
    readExponentDigits (writeDigits (digitsOf n) rest) = some (n, rest) := by
  rw [readExponentDigits, readDigits_writeDigits _ h]
  have hvalue := Numeral.digitsValue_digitsOf n
  obtain ⟨d, ds, hds⟩ := Numeral.exists_of_leading (Numeral.leading_digitsOf n)
  rw [hds] at hvalue ⊢
  exact congrArg (fun n => some (n, rest)) hvalue

theorem readExponent_writeExponent (e : Option Int) {rest : List Char} (h : EndsNumber rest) :
    readExponent (writeExponent e rest) = some (e, rest) := by
  match e with
  | none =>
    rw [writeExponent, readExponent]
    · rintro cs rfl
      exact (h 'e' rfl).2.2.1 rfl
    · rintro cs rfl
      exact (h 'E' rfl).2.2.2 rfl
  | some (.ofNat n) =>
    rw [writeExponent, readExponent, readSignedExponent, readExponentDigits_writeDigits n h.digits]
    rfl
  | some (.negSucc n) =>
    rw [writeExponent, readExponent, readSignedExponent,
      readExponentDigits_writeDigits (n + 1) h.digits]
    rfl

/-- An exponent starts with its letter, or there is none. -/
theorem head_writeExponent (e : Option Int) (rest : List Char) (c : Char)
    (hc : (writeExponent e rest).head? = some c) : c = 'e' ∨ rest.head? = some c := by
  match e with
  | none => exact Or.inr hc
  | some (.ofNat n) => exact Or.inl (Option.some.inj hc).symm
  | some (.negSucc n) => exact Or.inl (Option.some.inj hc).symm

theorem endsDigits_writeExponent (e : Option Int) {rest : List Char} (h : EndsNumber rest) :
    EndsDigits (writeExponent e rest) := by
  intro c hc
  rcases head_writeExponent e rest c hc with rfl | hc
  · decide
  · exact h.digits c hc

theorem endsDigits_writeFraction (ds : List Digit) {rest : List Char} (h : EndsDigits rest) :
    EndsDigits (writeFraction ds rest) := by
  cases ds with
  | nil => exact h
  | cons d ds => exact endsDigits_cons (by decide)

theorem readUnsigned_write (n : Numeral) (hn : n.Legible) {rest : List Char} (h : EndsNumber rest) :
    readUnsigned n.negative
      (writeDigits n.whole (writeFraction n.fraction (writeExponent n.exponent rest)))
        = some (n, rest) := by
  have hexponent := endsDigits_writeExponent n.exponent h
  have hpoint : ∀ c, (writeExponent n.exponent rest).head? = some c → c ≠ '.' := by
    intro c hc
    rcases head_writeExponent n.exponent rest c hc with rfl | hc
    · decide
    · exact (h c hc).2.1
  rw [readUnsigned, readWhole_writeDigits hn (endsDigits_writeFraction n.fraction hexponent)]
  simp only [Option.bind_eq_bind, Option.bind_some,
    readFraction_writeFraction n.fraction hexponent hpoint, readExponent_writeExponent _ h]
  rfl

/-- Digits that may stand before a point start with one. -/
theorem exists_writeDigits {ds : List Digit} (hds : Leading ds) (rest : List Char) :
    ∃ d cs, writeDigits ds rest = digitChar d :: cs := by
  obtain ⟨d, ds, rfl⟩ := Numeral.exists_of_leading hds
  exact ⟨d, _, rfl⟩

theorem digitChar_ne_minus : ∀ d : Digit, digitChar d ≠ '-' := by decide

/-- **A number literal reads back.** -/
theorem readNumeral_writeNumeral (n : Numeral) (hn : n.Legible) {rest : List Char}
    (h : EndsNumber rest) : readNumeral (writeNumeral n rest) = some (n, rest) := by
  have hread := readUnsigned_write n hn h
  rw [writeNumeral]
  cases hnegative : n.negative with
  | true =>
    rw [hnegative] at hread
    exact hread
  | false =>
    rw [hnegative] at hread
    obtain ⟨d, cs, hcs⟩ := exists_writeDigits hn
      (writeFraction n.fraction (writeExponent n.exponent rest))
    simp only [Bool.false_eq_true, if_false, hcs] at hread ⊢
    rw [readNumeral]
    · exact hread
    · intro _ hminus
      exact digitChar_ne_minus d (List.cons.inj hminus).1

/-! ## Quoted literals

Characters are written one by one and read one by one, onto the pieces read so far.  The closing
quote ends the literal, and a quote in the text is escaped. -/

theorem hexValue?_hexChar : ∀ n < 16, hexValue? (hexChar n) = some n := by decide

/-- An escape with four digits for a control character names that character. -/
theorem readPieces_control (before : List Piece) {c : Char} (hc : c.toNat < 0x20)
    (rest : List Char) :
    readPieces before
      ('\\' :: 'u' :: '0' :: '0' :: hexChar (c.toNat / 16) :: hexChar c.toNat :: rest)
        = readPieces (.char c :: before) rest := by
  have hhigh := hexValue?_hexChar (c.toNat / 16) (by omega)
  have hlow : hexValue? (hexChar c.toNat) = some (c.toNat % 16) := by
    have hmod : hexChar (c.toNat % 16) = hexChar c.toNat := by rw [hexChar, hexChar, Nat.mod_mod]
    rw [← hmod]
    exact hexValue?_hexChar (c.toNat % 16) (Nat.mod_lt _ (by decide))
  have hzero : hexValue? '0' = some 0 := by decide
  have hunit : ((0 * 16 + 0) * 16 + c.toNat / 16) * 16 + c.toNat % 16 = c.toNat := by omega
  have hpiece : Piece.ofUnit c.toNat = .char c := by
    rw [Piece.ofUnit, if_neg (by omega), Char.ofNat_toNat]
  rw [readPieces, hzero, hhigh, hlow]
  show readPieces (Piece.ofUnit (((0 * 16 + 0) * 16 + c.toNat / 16) * 16 + c.toNat % 16) :: before)
    rest = _
  rw [hunit, hpiece]

/-- **A character that is written reads as itself.** -/
theorem readPieces_writeChar (before : List Piece) (c : Char) (rest : List Char) :
    readPieces before (writeChar c rest) = readPieces (.char c :: before) rest := by
  rw [writeChar]
  -- the seven characters that are escaped by a letter
  iterate 7
    split
    · rename_i hescaped
      rw [hescaped]
      rfl
  split
  · rename_i hcontrol
    exact readPieces_control before hcontrol rest
  · rename_i hquote hbackslash _ _ _ _ _ hplain
    rw [readPieces]
    · exact if_neg hplain
    · exact hquote
    · exact fun _ _ _ _ _ hc _ => hbackslash hc
    · exact fun _ _ hc _ => hbackslash hc

theorem readPieces_foldr_writeChar (cs : List Char) (before : List Piece) (rest : List Char) :
    readPieces before (cs.foldr writeChar ('"' :: rest))
      = some (before.reverse ++ cs.map .char, rest) := by
  induction cs generalizing before with
  | nil => rw [List.foldr_nil, readPieces, List.map_nil, List.append_nil]
  | cons c cs ih =>
    rw [List.foldr_cons, readPieces_writeChar, ih, List.reverse_cons, List.append_assoc]
    rfl

theorem joinPieces_map_char (cs : List Char) : joinPieces (cs.map .char) = some cs := by
  induction cs with
  | nil => rfl
  | cons c cs ih => rw [List.map_cons, joinPieces, ih, Option.map_some]

/-- **A quoted literal reads back**, after its opening quote. -/
theorem readQuoted_writeText (s : String) (rest : List Char) :
    ∃ cs, writeText s rest = '"' :: cs ∧ readQuoted cs = some (some s, rest) := by
  refine ⟨_, rfl, ?_⟩
  rw [readQuoted, readPieces_foldr_writeChar, Option.map_some, List.reverse_nil, List.nil_append]
  show some ((joinPieces (s.toList.map .char)).map String.ofList, rest) = _
  rw [joinPieces_map_char, Option.map_some, String.ofList_toList]

end Json

end MapLayers
