/-!
# Guarded runs

The definitions of the library read arrays in a way that cannot fail: for what is not there they
have a default, and their loops have a bound after which they give up.  This keeps them total and
easy to run, but it also hides a mistake: a program that reads beyond an array goes on with the
default.  A *guarded* run does the same as a plain one, but it stops with a `Fault` at what should
never happen:

* `Fault.outside`, a read or a write outside an array;
* `Fault.emptied`, a slot that is to be emptied and is empty already;
* `Fault.unlinked`, a link that has to lead somewhere and does not;
* `Fault.noWord`, a position that no word is left for;
* `Fault.unfinished`, a loop that is not done when its bound is reached.

The modules next to this one have a guarded run for every stage of an evaluation and for every
reader of a hierarchy, and prove that it comes to what the plain definition gives, so that no
default is ever used and no bound is ever reached.  Each of these lemmas is called after its guarded
run, with `_eq_ok` at the end.  They are put together along the calls: `ok_bind` takes a run that
does not stop out of the way, and `mapM_eq_ok`, `foldlM_eq_ok`, `filter_eq_ok` and `flatMap_eq_ok`
do the same for a run over a list.
-/

set_option autoImplicit false

namespace MapLayers

/-- What stops a guarded run. -/
inductive Fault where
  /-- An array of the given size does not have the position. -/
  | outside (position size : Nat)
  /-- The slot at the position has been emptied before. -/
  | emptied (position : Nat)
  /-- The layer at the position has no parent to go on with. -/
  | unlinked (position : Nat)
  /-- Of the words for positions, the one for this position stands for no layer, or there is
  none. -/
  | noWord (position : Nat)
  /-- A loop is not done when its bound is reached. -/
  | unfinished
deriving DecidableEq, Repr

/-- The result of a guarded run. -/
abbrev Guarded (α : Type) := Except Fault α

namespace Guarded

variable {α β : Type}

/-- Read an array. -/
def read (xs : Array α) (i : Nat) : Guarded α :=
  match xs[i]? with
  | none => .error (.outside i xs.size)
  | some x => .ok x

/-- Write to an array. -/
def write (xs : Array α) (i : Nat) (x : α) : Guarded (Array α) :=
  if i < xs.size then .ok (xs.setIfInBounds i x) else .error (.outside i xs.size)

/-- Change what is at a position of an array. -/
def modify (xs : Array α) (i : Nat) (f : α → α) : Guarded (Array α) :=
  if i < xs.size then .ok (xs.modify i f) else .error (.outside i xs.size)

/-- The elements of a list for which a test comes out true. -/
def filter (p : α → Guarded Bool) : List α → Guarded (List α)
  | [] => .ok []
  | x :: xs => do
    let keep ← p x
    let rest ← filter p xs
    return if keep then x :: rest else rest

/-- What all elements of a list give, one after the other. -/
def flatMap (f : α → Guarded (List β)) (xs : List α) : Guarded (List β) :=
  return (← xs.mapM f).flatten

@[simp] theorem ok_bind (x : α) (f : α → Guarded β) : ((.ok x : Guarded α) >>= f) = f x := rfl

theorem read_of_getElem? {xs : Array α} {i : Nat} {x : α} (h : xs[i]? = some x) :
    read xs i = .ok x := by
  rw [read, h]

theorem read_of_lt {xs : Array α} {i : Nat} (h : i < xs.size) (d : α) :
    read xs i = .ok (xs.getD i d) := by
  rw [read, Array.getElem?_eq_getElem h, Array.getD_eq_getD_getElem?, Array.getElem?_eq_getElem h]
  rfl

theorem write_of_lt {xs : Array α} {i : Nat} (h : i < xs.size) (x : α) :
    write xs i x = .ok (xs.setIfInBounds i x) := if_pos h

theorem modify_of_lt {xs : Array α} {i : Nat} (h : i < xs.size) (f : α → α) :
    modify xs i f = .ok (xs.modify i f) := if_pos h

/-! ## Lists -/

/-- When nothing stops at any element, nothing stops. -/
theorem mapM_eq_ok {f : α → Guarded β} {g : α → β} : ∀ {xs : List α},
    (∀ x ∈ xs, f x = .ok (g x)) → xs.mapM f = .ok (xs.map g)
  | [], _ => rfl
  | x :: xs, h => by
    rw [List.forall_mem_cons] at h
    rw [List.mapM_cons, h.1, ok_bind, mapM_eq_ok h.2]
    rfl

theorem foldlM_eq_ok {f : β → α → Guarded β} {g : β → α → β} : ∀ {xs : List α} (b : β),
    (∀ x ∈ xs, ∀ b, f b x = .ok (g b x)) → xs.foldlM f b = .ok (xs.foldl g b)
  | [], _, _ => rfl
  | x :: xs, b, h => by
    rw [List.forall_mem_cons] at h
    rw [List.foldlM_cons, h.1, ok_bind, foldlM_eq_ok _ h.2, List.foldl_cons]

theorem filter_eq_ok {p : α → Guarded Bool} {q : α → Bool} : ∀ {xs : List α},
    (∀ x ∈ xs, p x = .ok (q x)) → filter p xs = .ok (xs.filter q)
  | [], _ => rfl
  | x :: xs, h => by
    rw [List.forall_mem_cons] at h
    rw [filter, h.1, ok_bind, filter_eq_ok h.2, List.filter_cons]
    rfl

theorem flatMap_eq_ok {f : α → Guarded (List β)} {g : α → List β} {xs : List α}
    (h : ∀ x ∈ xs, f x = .ok (g x)) : flatMap f xs = .ok (xs.flatMap g) := by
  rw [flatMap, mapM_eq_ok h]
  rfl

end Guarded

end MapLayers
