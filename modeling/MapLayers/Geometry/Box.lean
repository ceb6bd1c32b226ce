import MapLayers.Geometry.Crs
import MapLayers.Number.Binary64

/-!
# Bounding boxes

A layer may declare one rectangle per coordinate system.  The corners are kept as they are given:
nothing orders them.  Rectangles compare by the numeric value of their edges, so the sign of a zero
makes no difference to `==`, and it is `==` that decides whether a declared box repeats an inherited
one.  Equality of rectangles as records is finer, and is what a text that is written and read again
keeps.

`standardExtents` is the built-in extent of the default service area, in the coordinate systems that
are common there.  Its edges are written as quotients of integers and rounded to numbers, so that
the table can be compared with published values digit by digit (`Rect.ofQuotients`).  Only the
primary system of a service ever falls back on this table.
-/

set_option autoImplicit false

namespace MapLayers

/-- A rectangle, by its four edges as given. -/
structure Rect where
  minX : Binary64
  minY : Binary64
  maxX : Binary64
  maxY : Binary64
deriving DecidableEq, BEq, Repr, Inhabited

/-- Rectangles are equal when their edges are, one by one. -/
theorem Rect.beq_eq (r s : Rect) :
    (r == s) = (r.minX == s.minX && (r.minY == s.minY && (r.maxX == s.maxX && r.maxY == s.maxY))) :=
  rfl

/-- A rectangle in a coordinate system. -/
structure DeclaredBox where
  crs : Crs
  rect : Rect
deriving DecidableEq, BEq, Repr, Inhabited

/-- The number nearest to a quotient of integers, with zero for quotients that are out of range. -/
def coordinate (p : Int) (q : Nat) : Binary64 :=
  (Binary64.ofRatio (p < 0) p.natAbs q).getD Binary64.zero

/-- The rectangle whose edges are the given numbers of `1 / q`. -/
def Rect.ofQuotients (q : Nat) (minX minY maxX maxY : Int) : Rect :=
  ⟨coordinate minX q, coordinate minY q, coordinate maxX q, coordinate maxY q⟩

/-- The default service area, system by system. -/
def standardExtents : List (Crs × Rect) :=
  [(⟨"EPSG:28992"⟩, .ofQuotients 1 (-25000) 250000 280000 860000),
   (⟨"EPSG:25831"⟩, .ofQuotients 1 470000 5570000 810000 6130000),
   (⟨"EPSG:25832"⟩, .ofQuotients 1 80000 5570000 410000 6130000),
   (⟨"EPSG:3034"⟩, .ofQuotients 1 3450000 2650000 3800000 3150000),
   (⟨"EPSG:3035"⟩, .ofQuotients 1 3850000 3000000 4200000 3500000),
   (⟨"EPSG:3857"⟩, .ofQuotients 1 290000 6540000 850000 7570000),
   (⟨"EPSG:4258"⟩, .ofQuotients 10 25 505 77 559),
   (⟨"EPSG:4326"⟩, .ofQuotients 10 25 505 77 559),
   (⟨"CRS:84"⟩, .ofQuotients 10 25 505 77 559)]

/-- The extent of the default service area in a coordinate system, if the table has it. -/
def standardExtent (c : Crs) : Option Rect := standardExtents.lookup c

end MapLayers
