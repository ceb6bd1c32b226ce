import MapLayers.Json.Reader
import MapLayers.Samples
import MapLayers.Text.Outline
import MapLayers.Text.ReportJson
import MapLayers.Wire.Service

/-!
# The program

The program evaluates one description, given as a JSON text, or the sample service when it is given
none.  It prints the trace; for an accepted service, the routing table and the legends that have
still to be drawn; the outline with boxes; and the exported report.

Its exit code is 0 when the service is accepted and 1 when it is not, or when the layers do not form
a tree.  A text that is no description stops it with 101 before it prints anything, and so does,
later, an outline that would be too deep.

Everything up to the printing is a function from the text to an `Outcome`: how the run ends, what is
printed, and what is complained about.  A run that is broken off has an output, too, namely what had
been printed by then (`CommandLine.sections`).
-/

set_option autoImplicit false

namespace MapLayers

/-- The description of a text. -/
def Description.ofText (text : String) : Option Description := (Json.read text).bind ofJson

/-- How a run of the program ends. -/
inductive Ending where
  /-- The service is accepted. -/
  | accepted
  /-- The service is not accepted, or its layers do not form a tree. -/
  | rejected
  /-- The run could not be completed. -/
  | brokenOff
deriving DecidableEq, Repr, Inhabited

/-- The exit code for an ending. -/
def Ending.exitCode : Ending → Nat
  | .accepted => 0
  | .rejected => 1
  | .brokenOff => 101

/-- What a run of the program comes to. -/
structure Outcome where
  /-- How it ends. -/
  ending : Ending
  /-- What is printed. -/
  output : String
  /-- Why the layers do not form a tree, if they do not. -/
  complaint : Option FlatError := none
deriving DecidableEq, Repr, Inhabited

/-- What is printed as an error. -/
def Outcome.errorOutput (o : Outcome) : Option String :=
  o.complaint.map fun error => "structural error: " ++ error.message ++ "\n"

namespace CommandLine

/-- Some lines of text. -/
def lines (ls : List String) : String := String.join (ls.map (· ++ "\n"))

/-- The routing table, a group a line, and the legends that have still to be drawn. -/
def extras (h : Hierarchy) : String :=
  lines ("" :: "== routing" ::
      h.routing.map fun (group, leaves) => group ++ " -> " ++ ", ".intercalate leaves)
    ++ lines ("" :: "== legends to render" ::
      h.legendsToDraw.map fun s => h.displayName s.layer ++ "/" ++ s.style.name)

/-- What is printed after the trace: all of it, or what comes before it is broken off. -/
def sections (e : Evaluation) : Except String String :=
  match e.hierarchy.outline true with
  | .error _ => .error ""
  | .ok outline =>
    let before :=
      (if e.isAccepted then extras e.hierarchy else "") ++ "\n== outline\n" ++ outline
        ++ "\n== report\n"
    match e.reportText with
    | .error _ => .error before
    | .ok report => .ok (before ++ report ++ "\n")

/-- What is printed first. -/
def traced (d : Description) : String := "== trace\n" ++ Event.text true d.events

/-- Evaluate a description. -/
def evaluate (d : Description) : Outcome :=
  match d.evaluate with
  | .error error => { ending := .rejected, output := traced d, complaint := some error }
  | .ok e =>
    match sections e with
    | .error shown => { ending := .brokenOff, output := traced d ++ shown }
    | .ok shown =>
      { ending := if e.isAccepted then .accepted else .rejected, output := traced d ++ shown }

/-- Run the program on the text of a description, or on the sample service. -/
def run : Option String → Outcome
  | none => evaluate Samples.serviceDescription
  | some text =>
    match Description.ofText text with
    | none => { ending := .brokenOff, output := "" }
    | some d => evaluate d

end CommandLine

end MapLayers
