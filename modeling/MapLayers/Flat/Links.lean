import MapLayers.Flat.Entry
import MapLayers.NameTable

/-!
# Parent references

The entries of a flat list refer to their parents by name.  `Entry.parentPositions` turns the names
into positions, or says what is wrong with the first entry whose reference does not name exactly one
entry.  It looks names up in a table with the positions of all entries under their names
(`Entry.nameTable`), which is filled in one pass over the list; what is found there is what a search
of the whole list would find (`Entry.positionsIn_nameTable`).

What hangs below what is then a matter of positions alone: `positionsUnder parents p` lists, in
order, the entries whose parent is `p`, where `none` stands for entries that belong under none.

For the children of all positions at once there is a table with a row for each (`childTable`).  It
is filled in one pass over the list of parents, each position being entered in the row of its parent
(`Entry.enter`, `Entry.entered`), and the rows come out as the lists above (`getD_childTable`).

The errors are listed with their messages (`FlatError`).  An entry is referred to by its name, and
one without a name by its position, as there is nothing else to tell it apart.
-/

set_option autoImplicit false

namespace MapLayers

/-- Why a flat list does not describe a single tree of layers. -/
inductive FlatError where
  /-- The list is empty. -/
  | empty
  /-- Every entry has a parent. -/
  | noRoot
  /-- The parent of an entry is not in the list. -/
  | dangling (entry parent : String)
  /-- The parent of an entry is in the list more than once. -/
  | ambiguous (parent : String)
  /-- The parents of an entry form a cycle, or lead to one. -/
  | cycle (entry : String)
deriving DecidableEq, Repr

/-- The error in words. -/
def FlatError.message : FlatError → String
  | .empty => "layer list is empty"
  | .noRoot => "no layer without a parent reference; cannot determine the top layer"
  | .dangling entry parent =>
    "layer \x60" ++ entry ++ "\x60 references unknown parent \x60" ++ parent ++ "\x60"
  | .ambiguous parent => "parent reference \x60" ++ parent ++ "\x60 matches more than one layer"
  | .cycle entry => "parent references of layer \x60" ++ entry ++ "\x60 form a cycle"

/-! ## Names

The entries with a name can be found by going through the list, which is the plain way to say where
they are, or by looking the name up in a table, which is quicker when there are many names to look
for. -/

namespace Entry

/-- How errors refer to an entry: by name, or by position when it has none. -/
def displayName (e : Entry) (position : Nat) : String :=
  e.attributes.name.getD ("#" ++ toString position)

/-- Whether an entry has the given name. -/
@[inline]
def isNamed (e : Entry) (name : String) : Bool := e.attributes.name.any (· == name)

@[simp] theorem isNamed_iff {e : Entry} {name : String} :
    e.isNamed name = true ↔ e.attributes.name = some name := by
  cases h : e.attributes.name <;> simp [isNamed, h]

/-- The positions, counted from `start`, of the entries with the given name. -/
def positionsNamed (start : Nat) : List Entry → String → List Nat
  | [], _ => []
  | e :: es, name =>
    if e.isNamed name then start :: positionsNamed (start + 1) es name
    else positionsNamed (start + 1) es name

theorem mem_positionsNamed {name : String} {start i : Nat} {es : List Entry} :
    i ∈ positionsNamed start es name ↔
      ∃ k e, i = start + k ∧ es[k]? = some e ∧ e.attributes.name = some name := by
  induction es generalizing start with
  | nil => simp [positionsNamed]
  | cons e es ih =>
    have step : (∃ k x, i = start + k ∧ (e :: es)[k]? = some x ∧ x.attributes.name = some name) ↔
        (i = start ∧ e.attributes.name = some name) ∨
          ∃ k x, i = start + 1 + k ∧ es[k]? = some x ∧ x.attributes.name = some name := by
      constructor
      · rintro ⟨k, x, rfl, hk, hx⟩
        cases k with
        | zero =>
          obtain rfl : e = x := by simpa using hk
          exact Or.inl ⟨rfl, hx⟩
        | succ k => exact Or.inr ⟨k, x, by omega, by simpa using hk, hx⟩
      · rintro (⟨rfl, hx⟩ | ⟨k, x, rfl, hk, hx⟩)
        · exact ⟨0, e, rfl, rfl, hx⟩
        · exact ⟨k + 1, x, by omega, by simpa using hk, hx⟩
    rw [step]
    by_cases h : e.attributes.name = some name
    · simp [positionsNamed, h, ih]
    · simp [positionsNamed, h, ih]

/-- Enter the position of an entry under its name. -/
def enterName (table : NameTable (List Nat)) (i : Nat) (e : Entry) : NameTable (List Nat) :=
  match e.attributes.name with
  | none => table
  | some name => table.change name fun positions => positions.getD [] ++ [i]

/-- Enter the positions of entries, of which the first is at `start`, under their names. -/
def enterNames (start : Nat) (table : NameTable (List Nat)) : List Entry → NameTable (List Nat)
  | [] => table
  | e :: es => enterNames (start + 1) (enterName table start e) es

/-- The positions of entries under their names. -/
def nameTable (es : List Entry) : NameTable (List Nat) := enterNames 0 .empty es

/-- The positions that have been entered under a name. -/
def positionsIn (table : NameTable (List Nat)) (name : String) : List Nat :=
  (table.lookup name).getD []

/-- What is found under a name is what was there, and then the positions of the entries with it. -/
theorem positionsIn_enterNames (name : String) (es : List Entry) (start : Nat)
    (table : NameTable (List Nat)) : positionsIn (enterNames start table es) name
      = positionsIn table name ++ positionsNamed start es name := by
  induction es generalizing start table with
  | nil => exact (List.append_nil _).symm
  | cons e es ih =>
    rw [enterNames, ih, enterName, positionsNamed, isNamed]
    cases e.attributes.name with
    | none => rfl
    | some own =>
      rw [Option.any_some, positionsIn, positionsIn, NameTable.lookup_change]
      by_cases h : name = own
      · subst h
        simp
      · simp [h, Ne.symm h]

/-- **The table of names lists the positions of the entries with a name**, in increasing order. -/
theorem positionsIn_nameTable (es : List Entry) :
    positionsIn (nameTable es) = positionsNamed 0 es := by
  funext name
  exact (positionsIn_enterNames name es 0 .empty).trans (List.nil_append _)

/-- The position of the parent of an entry, `none` when it belongs under none.  The first argument
has the positions under each name. -/
def parentPosition (named : String → List Nat) (position : Nat) (e : Entry) :
    Except FlatError (Option Nat) :=
  match e.parent with
  | none => .ok none
  | some parent =>
    match named parent with
    | [] => .error (.dangling (e.displayName position) parent)
    | [p] => .ok (some p)
    | _ :: _ :: _ => .error (.ambiguous parent)

/-- The positions of the parents of some entries, of which the first is at `start`. -/
def parentPositionsFrom (named : String → List Nat) (start : Nat) :
    List Entry → Except FlatError (List (Option Nat))
  | [] => .ok []
  | e :: rest =>
    match parentPosition named start e with
    | .error error => .error error
    | .ok parent =>
      match parentPositionsFrom named (start + 1) rest with
      | .error error => .error error
      | .ok parents => .ok (parent :: parents)

/-- The positions of the parents of all entries, in order, or the error of the first entry whose
reference is wrong. -/
def parentPositions (es : List Entry) : Except FlatError (List (Option Nat)) :=
  parentPositionsFrom (positionsIn (nameTable es)) 0 es

theorem parentPositions_eq (es : List Entry) :
    parentPositions es = parentPositionsFrom (positionsNamed 0 es) 0 es := by
  rw [parentPositions, positionsIn_nameTable]

end Entry

/-! ## Children

First for one parent at a time, which is the plain way to say it, and then for all at once. -/

/-- The positions, counted from `start`, at which a list of parents has the given one. -/
def positionsUnderFrom (parent : Option Nat) (start : Nat) : List (Option Nat) → List Nat
  | [] => []
  | p :: ps =>
    if p = parent then start :: positionsUnderFrom parent (start + 1) ps
    else positionsUnderFrom parent (start + 1) ps

/-- The positions at which a list of parents has the given one, in increasing order. -/
def positionsUnder (parents : List (Option Nat)) (parent : Option Nat) : List Nat :=
  positionsUnderFrom parent 0 parents

theorem mem_positionsUnderFrom {parent : Option Nat} {start i : Nat} {ps : List (Option Nat)} :
    i ∈ positionsUnderFrom parent start ps ↔ ∃ k, i = start + k ∧ ps[k]? = some parent := by
  induction ps generalizing start with
  | nil => simp [positionsUnderFrom]
  | cons p ps ih =>
    have step : (∃ k, i = start + k ∧ (p :: ps)[k]? = some parent) ↔
        (i = start ∧ p = parent) ∨ ∃ k, i = start + 1 + k ∧ ps[k]? = some parent := by
      constructor
      · rintro ⟨k, rfl, hk⟩
        cases k with
        | zero => exact Or.inl ⟨rfl, by simpa using hk⟩
        | succ k => exact Or.inr ⟨k, by omega, by simpa using hk⟩
      · rintro (⟨rfl, rfl⟩ | ⟨k, rfl, hk⟩)
        · exact ⟨0, rfl, rfl⟩
        · exact ⟨k + 1, by omega, by simpa using hk⟩
    rw [step]
    by_cases h : p = parent
    · simp [positionsUnderFrom, h, ih]
    · simp [positionsUnderFrom, h, ih]

/-- The positions under a parent are those that have it as their parent. -/
theorem mem_positionsUnder {parents : List (Option Nat)} {parent : Option Nat} {i : Nat} :
    i ∈ positionsUnder parents parent ↔ parents[i]? = some parent := by
  rw [positionsUnder, mem_positionsUnderFrom]
  constructor
  · rintro ⟨k, rfl, hk⟩
    simpa using hk
  · intro h
    exact ⟨i, by omega, h⟩

theorem pairwise_positionsUnderFrom (parent : Option Nat) (start : Nat) (ps : List (Option Nat)) :
    (positionsUnderFrom parent start ps).Pairwise (· < ·) := by
  induction ps generalizing start with
  | nil => simp [positionsUnderFrom]
  | cons p ps ih =>
    by_cases h : p = parent
    · simp only [positionsUnderFrom, h, if_true]
      refine List.pairwise_cons.mpr ⟨fun i hi => ?_, ih (start + 1)⟩
      obtain ⟨k, rfl, -⟩ := mem_positionsUnderFrom.mp hi
      omega
    · simpa [positionsUnderFrom, h] using ih (start + 1)

/-- The positions under a parent are increasing, so none is listed twice. -/
theorem pairwise_positionsUnder (parents : List (Option Nat)) (parent : Option Nat) :
    (positionsUnder parents parent).Pairwise (· < ·) :=
  pairwise_positionsUnderFrom parent 0 parents

namespace Entry

/-- Enter a position in the row of its parent. -/
def enter (table : Array (List Nat)) (i : Nat) : Option Nat → Array (List Nat)
  | none => table
  | some p => table.setIfInBounds p (table.getD p [] ++ [i])

/-- Enter positions, counted from `start`, in the rows of their parents. -/
def entered (start : Nat) (table : Array (List Nat)) : List (Option Nat) → Array (List Nat)
  | [] => table
  | p :: ps => entered (start + 1) (enter table start p) ps

@[simp] theorem size_enter (table : Array (List Nat)) (i : Nat) (parent : Option Nat) :
    (enter table i parent).size = table.size := by
  cases parent with
  | none => rfl
  | some p => exact Array.size_setIfInBounds

@[simp] theorem size_entered (ps : List (Option Nat)) (start : Nat) (table : Array (List Nat)) :
    (entered start table ps).size = table.size := by
  induction ps generalizing start table with
  | nil => rfl
  | cons p ps ih => rw [entered, ih, size_enter]

/-- A row has what it had, and then the positions under its own. -/
theorem getD_entered {p : Nat} (ps : List (Option Nat)) (start : Nat) (table : Array (List Nat))
    (hp : p < table.size) : (entered start table ps).getD p []
      = table.getD p [] ++ positionsUnderFrom (some p) start ps := by
  induction ps generalizing start table with
  | nil => exact (List.append_nil _).symm
  | cons q ps ih =>
    rw [entered, ih _ _ (by rwa [size_enter]), positionsUnderFrom]
    cases q with
    | none => rfl
    | some q =>
      rw [enter, Array.getD_eq_getD_getElem?, Array.getElem?_setIfInBounds]
      by_cases hq : q = p
      · subst hq
        simp [hp]
      · have hne : ¬ some q = some p := fun heq => hq (Option.some.inj heq)
        rw [if_neg hq, if_neg hne, ← Array.getD_eq_getD_getElem?]

end Entry

/-- For each position, the positions of its children: every position is entered in the row of its
parent. -/
def childTable (parents : List (Option Nat)) : Array (List Nat) :=
  Entry.entered 0 (Array.replicate parents.length []) parents

@[simp] theorem size_childTable (parents : List (Option Nat)) :
    (childTable parents).size = parents.length := by
  rw [childTable, Entry.size_entered, Array.size_replicate]

/-- **The row of a position lists the positions that have it as their parent**, in increasing
order. -/
theorem getD_childTable {parents : List (Option Nat)} {i : Nat} (h : i < parents.length) :
    (childTable parents).getD i [] = positionsUnder parents (some i) := by
  rw [childTable, Entry.getD_entered _ _ _ (by rwa [Array.size_replicate]), positionsUnder]
  simp [Array.getD_eq_getD_getElem?, h]

end MapLayers
