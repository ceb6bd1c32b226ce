/-!
# Tables by name

A `NameTable` has values under names.  It is a search tree: at every node the name that is looked
for is the name of the node, or it comes before it or after it, and the search goes on to the one
side or the other.  Nothing balances the tree, so it is as deep as the order in which names are
entered makes it.

There is one way to fill a table, `NameTable.change`, which gives a name a value that may depend on
the one that it has.  What can be looked up afterwards is then known for all names at once
(`NameTable.lookup_change`).

No invariant is needed for this.  That the names on either side of a node are in order is true of
every table that is filled from the empty one, and it makes a search short; but `NameTable.change`
and `NameTable.lookup` take the same way through whatever tree there is, and all that matters is
whether two names are equal.

There are two of these tables.  Nesting a flat list has one of the positions of its entries, which
refer to each other by name (`Entry.nameTable`), and a check has one of the first layers of the
names that it has met (`Holders`).
-/

set_option autoImplicit false

namespace MapLayers

/-- Values under names. -/
inductive NameTable (α : Type) where
  /-- There is no name. -/
  | empty
  /-- A name with its value, between the names before it and those after it. -/
  | node (before : NameTable α) (name : String) (value : α) (after : NameTable α)
deriving Repr, Inhabited

namespace NameTable

variable {α : Type}

/-- The value of a name. -/
def lookup (name : String) : NameTable α → Option α
  | empty => none
  | node before own value after =>
    if name = own then some value
    else if name < own then before.lookup name
    else after.lookup name

/-- Give a name the value that is made of the one that it has, if it has any. -/
def change (name : String) (f : Option α → α) : NameTable α → NameTable α
  | empty => node empty name (f none) empty
  | node before own value after =>
    if name = own then node before own (f (some value)) after
    else if name < own then node (before.change name f) own value after
    else node before own value (after.change name f)

/-- A name whose value has been changed has the new one. -/
theorem lookup_change_self (name : String) (f : Option α → α) (t : NameTable α) :
    (t.change name f).lookup name = some (f (t.lookup name)) := by
  fun_induction change name f t with
  | case1 => simp [lookup]
  | case2 before value after => simp [lookup]
  | case3 before own value after hown hlt ih => simpa [lookup, hown, hlt] using ih
  | case4 before own value after hown hlt ih => simpa [lookup, hown, hlt] using ih

/-- The other names have the values that they had. -/
theorem lookup_change_of_ne {name other : String} (h : other ≠ name) (f : Option α → α)
    (t : NameTable α) : (t.change name f).lookup other = t.lookup other := by
  fun_induction change name f t with
  | case1 => simp [lookup, h]
  | case2 before value after => simp [lookup, h]
  | case3 before own value after hown hlt ih => rw [lookup, lookup, ih]
  | case4 before own value after hown hlt ih => rw [lookup, lookup, ih]

/-- **What can be looked up after a change.** -/
theorem lookup_change (name other : String) (f : Option α → α) (t : NameTable α) :
    (t.change name f).lookup other
      = if other = name then some (f (t.lookup name)) else t.lookup other := by
  split
  · rename_i h
    rw [h, lookup_change_self]
  · rename_i h
    exact lookup_change_of_ne h f t

end NameTable

end MapLayers
