import MapLayers.Json.Fields
import MapLayers.Proofs.Json.Literals

/-!
# Texts that read back

A value that is written on one line is read as that value (`Json.read_compact`).  Nothing is asked
of it but that its number literals may be written at all: arrays and objects close themselves, and
what follows an item is a comma or a bracket, which ends a number.

The readers run on fuel, and each calls the others with one less.  So the induction is on the fuel,
with one statement for each reader (`Json.ReadsWithin`); the fuel is measured by the length of what
is written, twice which is always enough.  A reader tells the kind of a value by the first character
of its text, which is why there is a section about what a written value starts with (`Json.Opens`).

`Json.Forall` is what is asked of the literals throughout a value.  It is a predicate on number
literals that is spread over the value, so that the modules about records can use it for what they
need: that a literal may be written, and that it stands for a number that is in range.

Whether a value can be interpreted in full is a matter of its literals and of how deep it nests
(`Json.interpretable_of_nesting`).
-/

set_option autoImplicit false

namespace MapLayers

namespace Json

open Numeral (Legible)

/-! ## Literals throughout a value

A value is written by recursion, and so is this predicate.  For a record it comes down to the values
of its members, as its keys denote texts. -/

mutual

/-- Every number of a value is a literal of this kind, and every quoted literal denotes a text. -/
def Forall (p : Numeral → Prop) : Json → Prop
  | .null => True
  | .bool _ => True
  | .number n => p n
  | .string s => s.isSome
  | .array items => ForallItems p items
  | .object members => ForallMembers p members

/-- The literals of all items are of this kind. -/
def ForallItems (p : Numeral → Prop) : List Json → Prop
  | [] => True
  | item :: items => Forall p item ∧ ForallItems p items

/-- The literals of all members are of this kind. -/
def ForallMembers (p : Numeral → Prop) : List (Quoted × Json) → Prop
  | [] => True
  | (key, value) :: members => key.isSome ∧ Forall p value ∧ ForallMembers p members

end

variable {p : Numeral → Prop}

theorem forallItems_iff {items : List Json} :
    ForallItems p items ↔ ∀ item ∈ items, item.Forall p := by
  induction items with
  | nil => simp [ForallItems]
  | cons item items ih => rw [ForallItems, ih, List.forall_mem_cons]

/-- The literals of a record are those of its values. -/
theorem forall_record {ms : Fields} (h : ∀ m ∈ ms, m.2.Forall p) : (record ms).Forall p := by
  rw [record, Forall]
  induction ms with
  | nil => exact trivial
  | cons m ms ih =>
    obtain ⟨hm, hms⟩ := List.forall_mem_cons.mp h
    exact ⟨rfl, hm, ih hms⟩

/-! ## What a written value starts with

The first character of a text tells what it is: a bracket, a quote, a letter, or one that starts a
number.  None of these is a blank or closes an array, so the readers of arrays and objects do not
stop before an item. -/

/-- The characters that a number literal can start with. -/
def numeralStarts : List Char := ['-', '0', '1', '2', '3', '4', '5', '6', '7', '8', '9']

theorem digitChar_mem_numeralStarts : ∀ d : Digit, digitChar d ∈ numeralStarts := by decide

theorem exists_writeNumeral {n : Numeral} (hn : n.Legible) (rest : List Char) :
    ∃ c cs, writeNumeral n rest = c :: cs ∧ c ∈ numeralStarts := by
  rw [writeNumeral]
  split
  · exact ⟨_, _, rfl, by decide⟩
  · obtain ⟨d, cs, hcs⟩ := exists_writeDigits hn
      (writeFraction n.fraction (writeExponent n.exponent rest))
    exact ⟨_, _, hcs, digitChar_mem_numeralStarts d⟩

/-- The text starts with something other than a blank and a closing bracket. -/
def Opens (cs : List Char) : Prop := ∃ c rest, cs = c :: rest ∧ isBlank c = false ∧ c ≠ ']'

theorem opens_of_numeralStarts {c : Char} (hc : c ∈ numeralStarts) :
    isBlank c = false ∧ c ≠ ']' := by
  have hall : numeralStarts.all (fun c => decide (isBlank c = false ∧ c ≠ ']')) = true := by decide
  exact of_decide_eq_true (List.all_eq_true.mp hall c hc)

theorem readQuoted_writeQuoted (s : Quoted) (rest : List Char) :
    ∃ cs, writeQuoted s rest = '"' :: cs ∧ readQuoted cs = some (s, rest) := by
  cases s with
  | none => exact ⟨_, rfl, rfl⟩
  | some s => exact readQuoted_writeText s rest

theorem opens_write {j : Json} (hj : j.Forall Legible) (rest : List Char) :
    Opens (write j rest) := by
  match j, hj with
  | .null, _ => exact ⟨_, _, rfl, by decide, by decide⟩
  | .bool true, _ => exact ⟨_, _, rfl, by decide, by decide⟩
  | .bool false, _ => exact ⟨_, _, rfl, by decide, by decide⟩
  | .number n, hn =>
    obtain ⟨c, cs, hcs, hc⟩ := exists_writeNumeral hn rest
    exact ⟨c, cs, hcs, opens_of_numeralStarts hc⟩
  | .string s, _ =>
    obtain ⟨cs, hcs, -⟩ := readQuoted_writeQuoted s rest
    exact ⟨_, cs, hcs, by decide, by decide⟩
  | .array [], _ => exact ⟨_, _, rfl, by decide, by decide⟩
  | .array (_ :: _), _ => exact ⟨_, _, rfl, by decide, by decide⟩
  | .object [], _ => exact ⟨_, _, rfl, by decide, by decide⟩
  | .object (_ :: _), _ => exact ⟨_, _, rfl, by decide, by decide⟩

theorem skipBlanks_cons {c : Char} (h : isBlank c = false) (cs : List Char) :
    skipBlanks (c :: cs) = c :: cs := by
  rw [skipBlanks, List.dropWhile_cons, h]
  rfl

theorem Opens.skipBlanks_eq {cs : List Char} (h : Opens cs) : skipBlanks cs = cs := by
  obtain ⟨c, rest, rfl, hblank, -⟩ := h
  exact skipBlanks_cons hblank rest

theorem length_write (j : Json) (rest : List Char) :
    (write j rest).length = (write j []).length + rest.length := by
  rw [write_append, List.length_append]

theorem length_writeItems (items : List Json) (rest : List Char) :
    (writeItems items rest).length = (writeItems items []).length + rest.length := by
  rw [writeItems_append, List.length_append]

theorem length_writeMembers (members : List (Quoted × Json)) (rest : List Char) :
    (writeMembers members rest).length = (writeMembers members []).length + rest.length := by
  rw [writeMembers_append, List.length_append]

theorem length_writeQuoted (s : Quoted) (rest : List Char) :
    (writeQuoted s rest).length = (writeQuoted s []).length + rest.length := by
  rw [writeQuoted_append, List.length_append]

/-! ## Reading what is written

One step of the induction for each reader.  An item is shorter than the array that it is in, by the
brackets at least, which leaves the fuel for it. -/

/-- With so much fuel, every reader reads back what is written, if that is no longer than half the
fuel. -/
structure ReadsWithin (fuel : Nat) : Prop where
  /-- Values. -/
  value : ∀ (j : Json) (rest : List Char), j.Forall Legible → EndsNumber rest →
    2 * (write j []).length ≤ fuel → readValue fuel (write j rest) = some (j, rest)
  /-- The items of an array, up to its closing bracket. -/
  items : ∀ (item : Json) (items : List Json) (rest : List Char),
    ForallItems Legible (item :: items) →
    2 * ((write item []).length + (writeItems items []).length) < fuel →
    readItems fuel (write item (writeItems items (']' :: rest))) = some (item :: items, rest)
  /-- The members of an object, up to its closing brace. -/
  members : ∀ (key : Quoted) (value : Json) (members : List (Quoted × Json)) (rest : List Char),
    ForallMembers Legible ((key, value) :: members) →
    2 * ((write value []).length + (writeMembers members []).length) < fuel →
    readMembers fuel (writeQuoted key (':' :: write value (writeMembers members ('\x7d' :: rest))))
      = some ((key, value) :: members, rest)

theorem endsNumber_cons {c : Char} {rest : List Char}
    (h : digit? c = none ∧ c ≠ '.' ∧ c ≠ 'e' ∧ c ≠ 'E') : EndsNumber (c :: rest) :=
  fun _ hd => Option.some.inj hd ▸ h

theorem endsNumber_writeItems (items : List Json) (rest : List Char) :
    EndsNumber (writeItems items (']' :: rest)) := by
  cases items with
  | nil => exact endsNumber_cons (by decide)
  | cons item items => exact endsNumber_cons (by decide)

theorem endsNumber_writeMembers (members : List (Quoted × Json)) (rest : List Char) :
    EndsNumber (writeMembers members ('\x7d' :: rest)) := by
  cases members with
  | nil => exact endsNumber_cons (by decide)
  | cons member members => exact endsNumber_cons (by decide)

/-- The characters that other values can start with. -/
def otherStarts : List Char := ['"', '[', '\x7b', 't', 'f', 'n']

/-- Nothing but a number starts like a number. -/
theorem ne_of_numeralStarts {c d : Char} (hc : c ∈ numeralStarts) (hd : d ∈ otherStarts) :
    c ≠ d := by
  have hall : numeralStarts.all (fun c => otherStarts.all (c != ·)) = true := by decide
  exact bne_iff_ne.mp (List.all_eq_true.mp (List.all_eq_true.mp hall c hc) d hd)

theorem readValue_number (fuel : Nat) {n : Numeral} (hn : n.Legible) {rest : List Char}
    (h : EndsNumber rest) :
    readValue (fuel + 1) (writeNumeral n rest) = some (.number n, rest) := by
  have hread := readNumeral_writeNumeral n hn h
  obtain ⟨c, cs, hcs, hc⟩ := exists_writeNumeral hn rest
  rw [hcs] at hread ⊢
  rw [readValue, hread]
  · rfl
  all_goals exact fun _ heq => ne_of_numeralStarts hc (by decide) (List.cons.inj heq).1

theorem readValue_array (fuel : Nat) {cs : List Char} (h : Opens cs) :
    readValue (fuel + 1) ('[' :: cs)
      = (readItems fuel cs).map fun (items, rest) => (.array items, rest) := by
  rw [readValue, h.skipBlanks_eq]
  obtain ⟨c, rest, rfl, -, hclose⟩ := h
  split
  · rename_i heq
    exact absurd (List.cons.inj heq).1 hclose
  · rfl

theorem readValue_object (fuel : Nat) (cs : List Char) :
    readValue (fuel + 1) ('\x7b' :: '"' :: cs)
      = (readMembers fuel ('"' :: cs)).map fun (members, rest) => (.object members, rest) := by
  rw [readValue]
  rfl

theorem ReadsWithin.value_succ {fuel : Nat} (h : ReadsWithin fuel) (j : Json) (rest : List Char)
    (hj : j.Forall Legible) (hrest : EndsNumber rest) (hfuel : 2 * (write j []).length ≤ fuel + 1) :
    readValue (fuel + 1) (write j rest) = some (j, rest) := by
  match j, hj with
  | .null, _ => rfl
  | .bool true, _ => rfl
  | .bool false, _ => rfl
  | .number n, hn => exact readValue_number fuel hn hrest
  | .string s, _ =>
    obtain ⟨cs, hcs, hread⟩ := readQuoted_writeQuoted s rest
    rw [write, hcs, readValue, hread]
    rfl
  | .array [], _ => rfl
  | .array (item :: items), hitems =>
    have hlength : (write (.array (item :: items)) []).length
        = 2 + (write item []).length + (writeItems items []).length := by
      rw [write, List.length_cons, length_write, length_writeItems]
      simp only [List.length_cons, List.length_nil]
      omega
    rw [write, readValue_array fuel (opens_write hitems.1 _),
      h.items item items rest hitems (by omega)]
    rfl
  | .object [], _ => rfl
  | .object ((key, value) :: members), hmembers =>
    have hlength : (write (.object ((key, value) :: members)) []).length
        = 3 + (writeQuoted key []).length + (write value []).length
          + (writeMembers members []).length := by
      rw [write, List.length_cons, length_writeQuoted, List.length_cons, length_write,
        length_writeMembers]
      simp only [List.length_cons, List.length_nil]
      omega
    have hread := h.members key value members rest hmembers (by omega)
    obtain ⟨cs, hcs, -⟩ := readQuoted_writeQuoted key
      (':' :: write value (writeMembers members ('\x7d' :: rest)))
    rw [hcs] at hread
    rw [write, hcs, readValue_object, hread]
    rfl

theorem ReadsWithin.items_succ {fuel : Nat} (h : ReadsWithin fuel) (item : Json)
    (items : List Json) (rest : List Char) (hitems : ForallItems Legible (item :: items))
    (hfuel : 2 * ((write item []).length + (writeItems items []).length) < fuel + 1) :
    readItems (fuel + 1) (write item (writeItems items (']' :: rest)))
      = some (item :: items, rest) := by
  obtain ⟨hitem, hitems⟩ := hitems
  rw [readItems, h.value item _ hitem (endsNumber_writeItems items rest) (by omega)]
  cases items with
  | nil => rfl
  | cons next items =>
    have hlength : (writeItems (next :: items) []).length
        = 1 + (write next []).length + (writeItems items []).length := by
      rw [writeItems, List.length_cons, length_write]
      omega
    have hnext := h.items next items rest hitems (by omega)
    rw [writeItems]
    simp only [Option.bind_eq_bind, Option.bind_some, skipBlanks_cons (c := ',') rfl,
      (opens_write hitems.1 _).skipBlanks_eq, hnext]

theorem ReadsWithin.members_succ {fuel : Nat} (h : ReadsWithin fuel) (key : Quoted) (value : Json)
    (members : List (Quoted × Json)) (rest : List Char)
    (hmembers : ForallMembers Legible ((key, value) :: members))
    (hfuel : 2 * ((write value []).length + (writeMembers members []).length) < fuel + 1) :
    readMembers (fuel + 1)
        (writeQuoted key (':' :: write value (writeMembers members ('\x7d' :: rest))))
      = some ((key, value) :: members, rest) := by
  obtain ⟨-, hvalue, hmembers⟩ := hmembers
  obtain ⟨cs, hcs, hkey⟩ := readQuoted_writeQuoted key
    (':' :: write value (writeMembers members ('\x7d' :: rest)))
  have hread := h.value value _ hvalue (endsNumber_writeMembers members rest) (by omega)
  rw [hcs, readMembers, hkey]
  simp only [Option.bind_eq_bind, Option.bind_some, skipBlanks_cons (c := ':') rfl,
    (opens_write hvalue _).skipBlanks_eq, hread]
  cases members with
  | nil => rfl
  | cons next members =>
    obtain ⟨nextKey, nextValue⟩ := next
    have hlength : (writeMembers ((nextKey, nextValue) :: members) []).length
        = 2 + (writeQuoted nextKey []).length + (write nextValue []).length
          + (writeMembers members []).length := by
      rw [writeMembers, List.length_cons, length_writeQuoted, List.length_cons, length_write]
      omega
    have hnext := h.members nextKey nextValue members rest hmembers (by omega)
    obtain ⟨ds, hds, -⟩ := readQuoted_writeQuoted nextKey
      (':' :: write nextValue (writeMembers members ('\x7d' :: rest)))
    rw [hds] at hnext
    rw [writeMembers, hds]
    simp only [skipBlanks_cons (c := ',') rfl, skipBlanks_cons (c := '"') rfl, hnext,
      Option.bind_some]

theorem readsWithin (fuel : Nat) : ReadsWithin fuel := by
  induction fuel with
  | zero =>
    refine ⟨fun j rest hj _ hfuel => ?_, fun _ _ _ _ hfuel => absurd hfuel (Nat.not_lt_zero _),
      fun _ _ _ _ _ hfuel => absurd hfuel (Nat.not_lt_zero _)⟩
    obtain ⟨c, cs, hcs, -⟩ := opens_write hj []
    rw [hcs] at hfuel
    exact absurd hfuel (by simp)
  | succ fuel ih => exact ⟨ih.value_succ, ih.items_succ, ih.members_succ⟩

/-- **A value that is written on one line reads back.** -/
theorem read_compact {j : Json} (hj : j.Forall Legible) : read (compact j) = some j := by
  have hread := (readsWithin (2 * (write j []).length + 2)).value j [] hj nofun (by omega)
  rw [read, compact, String.toList_ofList, readChars, (opens_write hj []).skipBlanks_eq, hread]
  rfl

/-! ## Nesting

A bound on the nesting of a record is one on that of its members, so it can be followed from the
outside to the inside. -/

mutual

/-- How many arrays and objects are nested in a value. -/
def nesting : Json → Nat
  | .null => 0
  | .bool _ => 0
  | .number _ => 0
  | .string _ => 0
  | .array items => nestingItems items + 1
  | .object members => nestingMembers members + 1

/-- How many arrays and objects are nested in the items. -/
def nestingItems : List Json → Nat
  | [] => 0
  | item :: items => max (nesting item) (nestingItems items)

/-- How many arrays and objects are nested in the members. -/
def nestingMembers : List (Quoted × Json) → Nat
  | [] => 0
  | (_, value) :: members => max (nesting value) (nestingMembers members)

end

theorem nesting_le_nestingMembers {m : String × Json} {ms : Fields} (h : m ∈ ms) :
    m.2.nesting ≤ nestingMembers (ms.map fun (key, value) => (some key, value)) := by
  induction ms with
  | nil => exact nomatch h
  | cons n ms ih =>
    rw [List.map_cons, nestingMembers]
    rcases List.mem_cons.mp h with rfl | hm
    · exact Nat.le_max_left _ _
    · exact Nat.le_trans (ih hm) (Nat.le_max_right _ _)

/-- A member of a record nests less than the record. -/
theorem nesting_lt_record {m : String × Json} {ms : Fields} (h : m ∈ ms) :
    m.2.nesting < (record ms).nesting := by
  rw [record, nesting]
  exact Nat.lt_succ_of_le (nesting_le_nestingMembers h)

/-- The literal stands for a number that is in range. -/
def InRange (n : Numeral) : Prop := n.toBinary64.isSome

mutual

/-- **What nests no deeper than allowed can be interpreted in full**, if its numbers are in
range. -/
theorem interpretable_of_nesting : ∀ (j : Json) {levels : Nat}, j.Forall InRange →
    j.nesting ≤ levels → j.interpretable levels = true
  | .null, _, _, _ => by simp only [interpretable]
  | .bool _, _, _, _ => by simp only [interpretable]
  | .number _, _, hn, _ => by
    simp only [interpretable]
    exact hn
  | .string _, _, hs, _ => by
    simp only [interpretable]
    exact hs
  | .array items, 0, _, hnesting => absurd hnesting (Nat.not_succ_le_zero _)
  | .array items, _ + 1, hitems, hnesting =>
    interpretableItems_of_nesting items hitems (Nat.le_of_succ_le_succ hnesting)
  | .object members, 0, _, hnesting => absurd hnesting (Nat.not_succ_le_zero _)
  | .object members, _ + 1, hmembers, hnesting =>
    interpretableMembers_of_nesting members hmembers (Nat.le_of_succ_le_succ hnesting)

theorem interpretableItems_of_nesting : ∀ (items : List Json) {levels : Nat},
    ForallItems InRange items → nestingItems items ≤ levels →
    interpretableItems levels items = true
  | [], _, _, _ => by rw [interpretableItems]
  | item :: items, _, hitems, hnesting => by
    rw [nestingItems, Nat.max_le] at hnesting
    rw [interpretableItems, interpretable_of_nesting item hitems.1 hnesting.1,
      interpretableItems_of_nesting items hitems.2 hnesting.2]
    rfl

theorem interpretableMembers_of_nesting : ∀ (members : List (Quoted × Json)) {levels : Nat},
    ForallMembers InRange members → nestingMembers members ≤ levels →
    interpretableMembers levels members = true
  | [], _, _, _ => by rw [interpretableMembers]
  | (key, value) :: members, _, hmembers, hnesting => by
    rw [nestingMembers, Nat.max_le] at hnesting
    rw [interpretableMembers, hmembers.1, interpretable_of_nesting value hmembers.2.1 hnesting.1,
      interpretableMembers_of_nesting members hmembers.2.2 hnesting.2]
    rfl

end

end Json

end MapLayers
