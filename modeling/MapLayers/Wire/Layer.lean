import MapLayers.Flat.Entry
import MapLayers.Layer.Nested
import MapLayers.Wire.Attributes

/-!
# Layers as JSON

A nested layer is its attributes with the member `layers`, left out when there is nothing below it.
A flat entry is its attributes with the member `group`, left out when the entry belongs under none.
Both are objects, never arrays.

Unlike other records, layers and entries are interpreted in full, including the members that nothing
is made of.  The check is made once, from the outside: `Layer.ofJson` and `Entry.ofJson` are told
how many levels of nesting are left where they start.

Every level of layers is two levels of nesting, an object and the array in it, so nested layers come
to the limit of a reader soon.  Flat entries are all at one level, however deep the tree is that
they describe.
-/

set_option autoImplicit false

namespace MapLayers

open Json (asText asList text)

namespace Layer

/-- The keys of a nested layer. -/
def keys : List String := Attributes.keys ++ ["layers"]

mutual

/-- Write a layer. -/
def toJson : Layer → Json
  | .node a cs => .record (a.toFields ++ childFields cs)

/-- The member for the layers below. -/
def childFields : List Layer → Fields
  | [] => []
  | c :: cs => [("layers", .array (c.toJson :: listToJson cs))]

/-- Write layers one by one. -/
def listToJson : List Layer → List Json
  | [] => []
  | c :: cs => c.toJson :: listToJson cs

end

mutual

/-- Read a layer, given that it can be interpreted in full. -/
def decode : Json → Option Layer
  | .object members => do
    let r ← Json.memberFields keys members
    return .node (← Attributes.ofFields r) (← decodeChildren members)
  | _ => none

/-- Read the layers below from the first member `layers`. -/
def decodeChildren : List (Quoted × Json) → Option (List Layer)
  | [] => some []
  | (key, value) :: members =>
    if key = some "layers" then decodeList value else decodeChildren members

/-- Read an array of layers. -/
def decodeList : Json → Option (List Layer)
  | .array items => decodeItems items
  | _ => none

/-- Read layers one by one. -/
def decodeItems : List Json → Option (List Layer)
  | [] => some []
  | item :: items => do return (← decode item) :: (← decodeItems items)

end

/-- Read a layer where so many levels of nesting are left. -/
def ofJson (levels : Nat) (j : Json) : Option Layer :=
  if j.interpretable levels then decode j else none

end Layer

namespace Entry

/-- The keys of a flat entry. -/
def keys : List String := Attributes.keys ++ ["group"]

/-- Write an entry. -/
def toJson (e : Entry) : Json :=
  .record (e.attributes.toFields ++ Fields.ofOption "group" text e.parent)

/-- Read an entry, given that it can be interpreted in full. -/
def decode (j : Json) : Option Entry := do
  let r ← Json.objectFields keys j
  return {
    attributes := ← Attributes.ofFields r
    parent := ← r.optional "group" asText }

/-- Read an entry where so many levels of nesting are left. -/
def ofJson (levels : Nat) (j : Json) : Option Entry :=
  if j.interpretable levels then decode j else none

/-- Read a list of entries where so many levels of nesting are left. -/
def listOfJson (levels : Nat) (j : Json) : Option (List Entry) :=
  if j.interpretable levels then asList decode j else none

/-- Write a list of entries. -/
def listToJson (es : List Entry) : Json := .array (es.map toJson)

end Entry

end MapLayers
