import MapLayers.Json
import MapLayers.Number.Reading

/-!
# Reading records from JSON values

A record is written as an object, or as the array of its values in the order of its keys.  `Fields`
holds the values that are given for the keys of a record.  A key may be left out of an object, and
an array may stop early; either way no value is given, and it is for the record to say whether it
can do without.  A known key may not be repeated; unknown keys are skipped, whatever their values.

* `Fields.required` is a value that has to be given.
* `Fields.optional` is a value that may be left out or be `null`.
* `Fields.withDefault` is a value that may be left out, but not be `null`.

Going the other way, `Fields.ofOption` and `Fields.ofList` are the members for values that are left
out when there is nothing to say.

A value that is skipped is not interpreted.  Where everything is to be interpreted, known or not,
`Json.interpretable` is asked first: every literal denotes a text, every number is in range, and
arrays and objects nest no deeper than allowed.
-/

set_option autoImplicit false

namespace MapLayers

/-- The values that are given for the keys of a record. -/
abbrev Fields := List (String × Json)

namespace Json

/-! ## Interpretation in full -/

/-- How many arrays and objects may be nested in a text. -/
def maxNesting : Nat := 127

mutual

/-- Whether a value can be interpreted in full with so many levels of arrays and objects. -/
def interpretable : Nat → Json → Bool
  | _, .null => true
  | _, .bool _ => true
  | _, .number n => n.toBinary64.isSome
  | _, .string s => s.isSome
  | 0, .array _ => false
  | levels + 1, .array items => interpretableItems levels items
  | 0, .object _ => false
  | levels + 1, .object members => interpretableMembers levels members

/-- Whether all items can be interpreted in full. -/
def interpretableItems : Nat → List Json → Bool
  | _, [] => true
  | levels, item :: items => interpretable levels item && interpretableItems levels items

/-- Whether all members can be interpreted in full. -/
def interpretableMembers : Nat → List (Quoted × Json) → Bool
  | _, [] => true
  | levels, (key, value) :: members =>
    key.isSome && interpretable levels value && interpretableMembers levels members

end

/-! ## Single values -/

/-- The text that a value is. -/
def asText : Json → Option String
  | .string s => s
  | _ => none

/-- The truth value that a value is. -/
def asBool : Json → Option Bool
  | .bool b => some b
  | _ => none

/-- The binary64 number that a value is. -/
def asReal : Json → Option Binary64
  | .number n => n.toBinary64
  | _ => none

/-- The 32-bit whole number that a value is.  It is written without sign, point and exponent. -/
def asUInt32 : Json → Option UInt32
  | .number n => do
    let n ← n.toNat?
    if n < Nat.pow 2 32 then some (UInt32.ofNat n) else none
  | _ => none

/-- The list that a value is, item by item. -/
def asList {α : Type} (item : Json → Option α) : Json → Option (List α)
  | .array items => items.mapM item
  | _ => none

/-! ## Records -/

/-- The members of an object under their keys, if every key denotes a text. -/
def namedMembers (members : List (Quoted × Json)) : Option Fields :=
  members.mapM fun (key, value) => key.map fun key => (key, value)

/-- The values for the given keys among the members of an object.  None of the keys may repeat. -/
def memberFields (keys : List String) (members : List (Quoted × Json)) : Option Fields := do
  let known := (← namedMembers members).filter fun (key, _) => keys.contains key
  if (known.map (·.1)).Nodup then some known else none

/-- The values of a record that may only be written as an object. -/
def objectFields (keys : List String) : Json → Option Fields
  | .object members => memberFields keys members
  | _ => none

/-- The values of a record that may be written as an object or as an array. -/
def fields (keys : List String) : Json → Option Fields
  | .object members => memberFields keys members
  | .array items => if items.length ≤ keys.length then some (keys.zip items) else none
  | _ => none

end Json

namespace Fields

variable {α : Type}

/-- A value that has to be given. -/
def required (r : Fields) (key : String) (read : Json → Option α) : Option α := do
  read (← r.lookup key)

/-- A value that may be left out or be `null`. -/
def optional (r : Fields) (key : String) (read : Json → Option α) : Option (Option α) :=
  match r.lookup key with
  | none => some none
  | some .null => some none
  | some value => (read value).map some

/-- A value that may be left out, but not be `null`. -/
def withDefault (r : Fields) (key : String) (default : α) (read : Json → Option α) : Option α :=
  match r.lookup key with
  | none => some default
  | some value => read value

/-- The member for an optional value: none when it is absent. -/
def ofOption (key : String) (write : α → Json) : Option α → Fields
  | none => []
  | some x => [(key, write x)]

/-- The member for a list: none when it is empty. -/
def ofList (key : String) (write : α → Json) : List α → Fields
  | [] => []
  | xs => [(key, .array (xs.map write))]

end Fields

end MapLayers
