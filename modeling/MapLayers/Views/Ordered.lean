/-!
# Tables in the order of their keys

A list of keys with values, in increasing order of the keys, each key at most once.  `insertByKey`
keeps that form; a key that is there already gets the new value.

What can be looked up afterwards is the value that was set last for the key
(`lookup_insertByKey_self`), and for any other key what could be looked up before
(`lookup_insertByKey_of_ne`).  That the order is kept, and what follows from it, is the subject of
`MapLayers.Proofs.Views.Tables`.
-/

set_option autoImplicit false

namespace MapLayers

variable {κ α : Type} [DecidableEq κ] [LT κ] [DecidableLT κ]

/-- Set the value of a key. -/
def insertByKey (key : κ) (value : α) : List (κ × α) → List (κ × α)
  | [] => [(key, value)]
  | (k, v) :: rest =>
    if key = k then (key, value) :: rest
    else if key < k then (key, value) :: (k, v) :: rest
    else (k, v) :: insertByKey key value rest

/-- The value of a key is the one set last. -/
theorem lookup_insertByKey_self (key : κ) (value : α) (t : List (κ × α)) :
    (insertByKey key value t).lookup key = some value := by
  induction t with
  | nil => simp [insertByKey]
  | cons kv rest ih =>
    obtain ⟨k, v⟩ := kv
    by_cases h : key = k
    · simp [insertByKey, h]
    · by_cases hlt : key < k
      · simp [insertByKey, h, hlt]
      · have hne : (key == k) = false := by simp [h]
        simp [insertByKey, h, hlt, List.lookup_cons, hne, ih]

/-- Setting the value of a key leaves the values of the others alone. -/
theorem lookup_insertByKey_of_ne {key other : κ} (h : other ≠ key) (value : α)
    (t : List (κ × α)) : (insertByKey key value t).lookup other = t.lookup other := by
  have hother : (other == key) = false := by simp [h]
  induction t with
  | nil => simp [insertByKey, List.lookup_cons, hother]
  | cons kv rest ih =>
    obtain ⟨k, v⟩ := kv
    by_cases heq : key = k
    · subst heq
      simp [insertByKey, List.lookup_cons, hother]
    · by_cases hlt : key < k
      · simp [insertByKey, heq, hlt, List.lookup_cons, hother]
      · simp [insertByKey, heq, hlt, List.lookup_cons, ih]

theorem mem_keys_insertByKey {key k : κ} {value : α} {t : List (κ × α)} :
    k ∈ (insertByKey key value t).map Prod.fst ↔ k = key ∨ k ∈ t.map Prod.fst := by
  induction t with
  | nil => simp [insertByKey]
  | cons kv rest ih =>
    obtain ⟨j, v⟩ := kv
    by_cases heq : key = j
    · simp [insertByKey, heq]
    · by_cases hlt : key < j
      · simp [insertByKey, heq, hlt]
      · simp only [insertByKey, heq, hlt, if_false, List.map_cons, List.mem_cons, ih]
        exact or_left_comm

end MapLayers
