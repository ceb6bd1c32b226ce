import MapLayers.Main
import MapLayers.Views.Cursor
import MapLayers.Wire.Boxes
import MapLayers.Proofs.Layout.Encoding
import MapLayers.Proofs.Layout.Walking
import MapLayers.Proofs.Layout.Outlooks
import MapLayers.Proofs.Boxes.Effective
import MapLayers.Proofs.Views.Shared
import MapLayers.Proofs.Check.Acceptance
import MapLayers.Proofs.Flat.Correspondence
import MapLayers.Proofs.Flat.Outcome
import MapLayers.Proofs.Boxes.Inheritance
import MapLayers.Proofs.Boxes.Removal
import MapLayers.Proofs.Views.Collisions
import MapLayers.Proofs.Check.Groups
import MapLayers.Proofs.Check.ByLayer
import MapLayers.Proofs.Check.Primary
import MapLayers.Proofs.Check.Collisions
import MapLayers.Proofs.Check.DeclaredBoxes
import MapLayers.Proofs.Check.Redundant
import MapLayers.Proofs.Views.Routing
import MapLayers.Proofs.Flat.Arrangement
import MapLayers.Proofs.Flat.Chains
import MapLayers.Proofs.Check.Rearranged
import MapLayers.Proofs.Check.Related
import MapLayers.Proofs.Guarded.Fault
import MapLayers.Proofs.Guarded.Nesting
import MapLayers.Proofs.Guarded.Laying
import MapLayers.Proofs.Guarded.Reading
import MapLayers.Proofs.Guarded.Boxes
import MapLayers.Proofs.Guarded.Views
import MapLayers.Proofs.Guarded.Checking
import MapLayers.Proofs.Guarded.Outlines
import MapLayers.Proofs.Guarded.Evaluation
import MapLayers.Proofs.Check.Switches
import MapLayers.Proofs.Check.Local
import MapLayers.Proofs.Check.PrimaryBoxes
import MapLayers.Proofs.Wire.Records
import MapLayers.Proofs.Check.Order
import MapLayers.Proofs.Check.Hidden
import MapLayers.Proofs.Views.Cursors
import MapLayers.Proofs.Check.Repetitions
import MapLayers.Proofs.Check.Redundancy
import MapLayers.Proofs.Views.Cleanup
import MapLayers.Proofs.Views.Edges
import MapLayers.Proofs.Layout.Depths
import MapLayers.Proofs.Views.Parents
import MapLayers.Proofs.Flat.Visits
import MapLayers.Proofs.Layout.Shape
import MapLayers.Proofs.Trace.Events
import MapLayers.Proofs.Text.Exports
import MapLayers.Proofs.Text.Lines
import MapLayers.Proofs.Flat.Recursion
