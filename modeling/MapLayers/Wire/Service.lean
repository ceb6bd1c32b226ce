import MapLayers.Service.Description
import MapLayers.Wire.Layer

/-!
# Service descriptions as JSON

The layers of a description are flat when they are an array and nested when they are an object.
They are one level below the description itself, which is what limits their nesting.

Settings may be left out, one by one or all together, and then have their default.  The kind of a
service is a name (`ServiceKind.key`).
-/

set_option autoImplicit false

namespace MapLayers

open Json (asBool)

namespace ServiceKind

/-- The name that stands for the kind. -/
def key : ServiceKind → String
  | .vectorOnly => "vectorOnly"
  | .rasterCapable => "rasterCapable"

/-- The kind of a name. -/
def ofKey : String → Option ServiceKind
  | "vectorOnly" => some .vectorOnly
  | "rasterCapable" => some .rasterCapable
  | _ => none

/-- Write a kind of service. -/
def toJson (k : ServiceKind) : Json := .text k.key

/-- A kind is written as its name, or as an object whose one member has that name and is `null`. -/
def ofJson : Json → Option ServiceKind
  | .string (some name) => ofKey name
  | .object [(some name, .null)] => ofKey name
  | _ => none

end ServiceKind

namespace Settings

/-- The keys of the settings. -/
def keys : List String :=
  ["primaryCrs", "staticConfig", "rewriteGroupToDataLayers", "validateChildStyleNameEqual",
    "serviceKind"]

/-- Write settings. -/
def toJson (s : Settings) : Json :=
  .record [("primaryCrs", s.primary.toJson), ("staticConfig", .bool s.staticDrawing),
    ("rewriteGroupToDataLayers", .bool s.rewritesGroups),
    ("validateChildStyleNameEqual", .bool s.comparesStyles), ("serviceKind", s.kind.toJson)]

/-- Settings that are not given have their default. -/
def ofJson (j : Json) : Option Settings := do
  let r ← Json.fields keys j
  let default : Settings := {}
  return {
    primary := ← r.withDefault "primaryCrs" default.primary Crs.ofJson
    staticDrawing := ← r.withDefault "staticConfig" default.staticDrawing asBool
    rewritesGroups := ← r.withDefault "rewriteGroupToDataLayers" default.rewritesGroups asBool
    comparesStyles := ← r.withDefault "validateChildStyleNameEqual" default.comparesStyles asBool
    kind := ← r.withDefault "serviceKind" default.kind ServiceKind.ofJson }

end Settings

namespace LayerInput

/-- Write layers in either form. -/
def toJson : LayerInput → Json
  | .flat entries => Entry.listToJson entries
  | .nested layer => layer.toJson

/-- Read layers where so many levels of nesting are left. -/
def ofJson (levels : Nat) : Json → Option LayerInput
  | .array items => (Entry.listOfJson levels (.array items)).map .flat
  | .object members => (Layer.ofJson levels (.object members)).map .nested
  | _ => none

end LayerInput

namespace Description

/-- The keys of a description. -/
def keys : List String := ["config", "top", "layers"]

/-- Write a description. -/
def toJson (d : Description) : Json :=
  .record <| [("config", d.settings.toJson)]
    ++ Fields.ofOption "top" Attributes.toJson d.top
    ++ [("layers", d.layers.toJson)]

/-- Read a description. -/
def ofJson (j : Json) : Option Description := do
  let r ← Json.fields keys j
  return {
    settings := ← r.withDefault "config" {} Settings.ofJson
    top := ← r.optional "top" Attributes.ofJson
    layers := ← r.required "layers" (LayerInput.ofJson (Json.maxNesting - 1)) }

end Description

end MapLayers
