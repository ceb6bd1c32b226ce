/-!
# Coordinate systems

A coordinate system is known by its identifier, a text such as `EPSG:28992`.  Two identifiers name
the same system only when they are the same text; nothing is normalised.

Tables over coordinate systems are lists in the order of the identifiers, code point by code point,
each system at most once.  `Crs.insert` keeps that form (`Crs.pairwise_insert`), and adds nothing
but the system in question (`Crs.mem_insert`); these two are all that is ever used of it.

The order is a strict one, read off the order of texts.  `Crs.sort` puts a list in order without
dropping repetitions, for callers that want to see all systems of a list as they are.
-/

set_option autoImplicit false

namespace MapLayers

/-- A coordinate system, by its identifier. -/
structure Crs where
  /-- The identifier. -/
  id : String
deriving DecidableEq, Repr, Inhabited

namespace Crs

/-- The coordinate system of a service that names none. -/
def standard : Crs := ⟨"EPSG:28992"⟩

/-- Whether this is the standard coordinate system. -/
def isStandard (c : Crs) : Bool := c = standard

/-- The identifier with a label, for diagnostics. -/
def labelled (c : Crs) : String := "Crs(" ++ c.id ++ ")"

/-- Coordinate systems are ordered by identifier, code point by code point. -/
instance : LT Crs := ⟨fun a b => a.id < b.id⟩

instance (a b : Crs) : Decidable (a < b) := inferInstanceAs (Decidable (a.id < b.id))

/-- Insert a coordinate system into an increasing list, unless it is there already. -/
def insert (c : Crs) : List Crs → List Crs
  | [] => [c]
  | d :: ds => if c = d then d :: ds else if c < d then c :: d :: ds else d :: insert c ds

theorem mem_insert {c d : Crs} {cs : List Crs} : d ∈ insert c cs ↔ d = c ∨ d ∈ cs := by
  induction cs with
  | nil => simp [insert]
  | cons e es ih =>
    by_cases h : c = e
    · simp [insert, h]
    · by_cases hlt : c < e
      · simp [insert, h, hlt]
      · simp [insert, h, hlt, ih, or_left_comm]

theorem lt_trans {a b c : Crs} (h : a < b) (h' : b < c) : a < c := String.lt_trans h h'

theorem lt_irrefl (a : Crs) : ¬ a < a := String.lt_irrefl a.id

theorem lt_of_not_lt_of_ne {a b : Crs} (hne : a ≠ b) (h : ¬ a < b) : b < a := by
  have hid : b.id ≠ a.id := fun hid => hne (by cases a; cases b; simp_all)
  have hlt : b.id < a.id := Std.lt_of_le_of_ne (String.not_lt.mp h) hid
  exact hlt

/-- Inserting keeps a list increasing, so no system is in it twice. -/
theorem pairwise_insert {c : Crs} {cs : List Crs} (h : cs.Pairwise (· < ·)) :
    (insert c cs).Pairwise (· < ·) := by
  induction cs with
  | nil => simp [insert]
  | cons e es ih =>
    obtain ⟨hhead, htail⟩ := List.pairwise_cons.mp h
    by_cases heq : c = e
    · simpa [insert, heq] using h
    · by_cases hlt : c < e
      · simp only [insert, heq, hlt, if_true, if_false]
        refine List.pairwise_cons.mpr ⟨fun d hd => ?_, h⟩
        rcases List.mem_cons.mp hd with rfl | hd
        · exact hlt
        · exact lt_trans hlt (hhead d hd)
      · simp only [insert, heq, hlt, if_false]
        refine List.pairwise_cons.mpr ⟨fun d hd => ?_, ih htail⟩
        rcases mem_insert.mp hd with rfl | hd
        · exact lt_of_not_lt_of_ne heq hlt
        · exact hhead d hd

/-- Insert a coordinate system into a list in order, keeping repetitions. -/
def insertSorted (c : Crs) : List Crs → List Crs
  | [] => [c]
  | d :: ds => if d < c then d :: insertSorted c ds else c :: d :: ds

/-- The list in order, repetitions kept. -/
def sort (cs : List Crs) : List Crs := cs.foldr insertSorted []

end Crs

end MapLayers
