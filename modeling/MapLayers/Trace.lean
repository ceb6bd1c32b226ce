import MapLayers.Findings.Report
import MapLayers.Hierarchy.Basic

/-!
# The trace of an evaluation

An evaluation has four stages.  Its trace tells when each begins and ends, and how many layers it
dealt with, or findings it made; it sums up the hierarchy once it is complete, and lists the
findings.

An event is written out with a line feed behind it (`Event.text`).  The events of stages and the
summary take one line each.  So does a finding as long as there is no line feed in the name of its
layer, in the name of its style or in its detail; these stand as they are given, and one with a line
feed makes the event take several lines.

A summary counts what a hierarchy has: layers by role, the greatest depth, and the coordinate
systems that are referenced.  The primary system is referenced in any case, whether or not a layer
has a box in it.
-/

set_option autoImplicit false

namespace MapLayers

/-- A stage of an evaluation. -/
inductive Stage where
  /-- Nesting the description and laying it out. -/
  | build
  /-- Telling the roles of the layers. -/
  | classify
  /-- Working out the effective boxes. -/
  | resolve
  /-- Checking the rules. -/
  | validate
deriving DecidableEq, Repr, Inhabited

namespace Stage

/-- The stage in words. -/
def label : Stage → String
  | .build => "build"
  | .classify => "classify"
  | .resolve => "resolve"
  | .validate => "validate"

/-- The stages, in order. -/
def all : List Stage := [.build, .classify, .resolve, .validate]

/-- The stage of a label. -/
def ofLabel (label : String) : Option Stage := all.find? (·.label == label)

end Stage

/-- The shape of a hierarchy in numbers. -/
structure Summary where
  /-- The number of layers. -/
  layers : Nat
  /-- The number of groups. -/
  groups : Nat
  /-- The number of data layers. -/
  data : Nat
  /-- The greatest depth of a layer. -/
  depth : Nat
  /-- The number of coordinate systems that are referenced. -/
  systems : Nat
deriving DecidableEq, Repr, Inhabited

/-- The shape of a hierarchy in numbers. -/
def Hierarchy.summary (h : Hierarchy) : Summary where
  layers := h.size
  groups := (h.all.filter fun k => h.role k == .group).length
  data := (h.all.filter fun k => h.role k == .data).length
  depth := (h.all.map h.depth).foldl max 0
  systems := h.referenced.length

/-- An event of an evaluation. -/
inductive Event where
  | begins (stage : Stage)
  | ends (stage : Stage) (items : Nat)
  | summary (summary : Summary)
  | finding (finding : Finding)
deriving DecidableEq, Repr

namespace Event

/-- An event in words.  It is one line but for a finding with a line feed in it. -/
def line : Event → String
  | .begins stage => "[stage:begin] " ++ stage.label
  | .ends stage items => "[stage:end] " ++ stage.label ++ " items=" ++ toString items
  | .summary s =>
    "[tree] layers=" ++ toString s.layers ++ " groups=" ++ toString s.groups ++ " data="
      ++ toString s.data ++ " depth=" ++ toString s.depth ++ " crs=" ++ toString s.systems
  | .finding f => "[finding] " ++ f.display

/-- Whether the event is a finding. -/
def isFinding : Event → Bool
  | .finding _ => true
  | _ => false

/-- Some events one below the other, with or without the findings. -/
def text (findings : Bool) (events : List Event) : String :=
  String.join ((events.filter fun e => findings || !e.isFinding).map fun e => e.line ++ "\n")

end Event

end MapLayers
