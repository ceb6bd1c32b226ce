import Mathlib.Data.List.Nodup
import Mathlib.Data.List.Perm.Basic
import MapLayers.Views.Ordered

/-!
# Tables that are filled entry by entry

A view fills its table by setting the values of keys, one after the other.  The keys of the table
stay in order (`pairwise_keys_foldl_setEntry`), and as long as no key is set twice nothing gets
lost: the table is a rearrangement of the entries (`perm_foldl_setEntry`).  Two tables in order are
the same when the same can be looked up in them (`eq_of_lookup`), so a table can be compared with
one that is made from a list of keys (`lookup_filterMap`).

This is about lists of pairs and says nothing of layers.  Two views are filled in this way, the
routing table by names of groups and the table of shared styles by positions of layers, so the keys
are of any type with an order in which two keys are always comparable.
-/

set_option autoImplicit false

namespace MapLayers

variable {κ α : Type} [DecidableEq κ] [LT κ] [DecidableLT κ]

/-- Set the value of the key of an entry. -/
def setEntry (table : List (κ × α)) (entry : κ × α) : List (κ × α) :=
  insertByKey entry.1 entry.2 table

variable {key : κ} {value : α} {table entries : List (κ × α)}

/-- A new key is added to what is there. -/
theorem perm_insertByKey (h : key ∉ table.map Prod.fst) :
    (insertByKey key value table).Perm ((key, value) :: table) := by
  induction table with
  | nil => exact .refl _
  | cons kv rest ih =>
    obtain ⟨k, v⟩ := kv
    rw [List.map_cons, List.mem_cons, not_or] at h
    rw [insertByKey, if_neg h.1]
    split
    · exact .refl _
    · exact ((ih h.2).cons (k, v)).trans (.swap (key, value) (k, v) rest)

/-- **Nothing gets lost** when no key is set twice. -/
theorem perm_foldl_setEntry (hnd : (entries.map Prod.fst).Nodup)
    (hfresh : ∀ e ∈ entries, e.1 ∉ table.map Prod.fst) :
    (entries.foldl setEntry table).Perm (entries ++ table) := by
  induction entries generalizing table with
  | nil => exact .refl _
  | cons e es ih =>
    rw [List.map_cons, List.nodup_cons] at hnd
    rw [List.forall_mem_cons] at hfresh
    have hrest : (es.foldl setEntry (setEntry table e)).Perm (es ++ setEntry table e) := by
      refine ih hnd.2 fun d hd => ?_
      rw [setEntry, mem_keys_insertByKey, not_or]
      exact ⟨fun heq => hnd.1 (heq ▸ List.mem_map_of_mem hd), hfresh.2 d hd⟩
    have hfirst : (es ++ setEntry table e).Perm (es ++ e :: table) :=
      (perm_insertByKey hfresh.1).append_left es
    exact hrest.trans (hfirst.trans List.perm_middle)

omit [LT κ] [DecidableLT κ] in
/-- Looking up a key in a table that is made from a list of keys. -/
theorem lookup_filterMap (f : κ → Option α) (ks : List κ) (k : κ) :
    (ks.filterMap fun j => (f j).map (j, ·)).lookup k = if k ∈ ks then f k else none := by
  induction ks with
  | nil => rfl
  | cons j js ih =>
    by_cases h : k = j
    · subst h
      cases hf : f k with
      | none => simp [hf, ih]
      | some x => simp [hf]
    · have hne : (k == j) = false := by simpa using h
      cases hf : f j with
      | none => simp [hf, ih, h]
      | some x =>
        rw [List.filterMap_cons, hf, Option.map_some]
        simp only
        rw [List.lookup_cons, hne]
        simp [ih, h]

omit [DecidableEq κ] [LT κ] [DecidableLT κ] in
/-- The keys of such a table are among those of the list, in the same order. -/
theorem keys_filterMap (f : κ → Option α) (ks : List κ) :
    (ks.filterMap fun j => (f j).map (j, ·)).map Prod.fst = ks.filter fun j => (f j).isSome := by
  induction ks with
  | nil => rfl
  | cons j js ih => cases hf : f j <;> simp [hf, ih]

omit [LT κ] [DecidableLT κ] in
/-- Where no key occurs twice, what is in the table is what can be looked up. -/
theorem lookup_eq_some_iff_mem (h : (table.map Prod.fst).Nodup) {e : κ × α} :
    table.lookup e.1 = some e.2 ↔ e ∈ table := by
  induction table with
  | nil => simp
  | cons kv rest ih =>
    obtain ⟨k, v⟩ := kv
    obtain ⟨i, x⟩ := e
    rw [List.map_cons, List.nodup_cons] at h
    rw [List.lookup_cons, List.mem_cons]
    by_cases hk : i = k
    · subst hk
      have hrest : (i, x) ∉ rest := fun hmem => h.1 (List.mem_map.mpr ⟨_, hmem, rfl⟩)
      simp [hrest, eq_comm]
    · have hbeq : (i == k) = false := by simpa using hk
      rw [hbeq]
      simpa [hk] using ih h.2

section

variable [LE κ] [Std.IsLinearOrder κ] [Std.LawfulOrderLT κ]

/-- Setting a value keeps the keys in order. -/
theorem pairwise_keys_insertByKey (h : (table.map Prod.fst).Pairwise (· < ·)) :
    ((insertByKey key value table).map Prod.fst).Pairwise (· < ·) := by
  induction table with
  | nil => simp [insertByKey]
  | cons kv rest ih =>
    obtain ⟨k, v⟩ := kv
    obtain ⟨hhead, htail⟩ := List.pairwise_cons.mp h
    by_cases heq : key = k
    · subst heq
      rw [insertByKey, if_pos rfl]
      exact h
    · rw [insertByKey, if_neg heq]
      split
      · rename_i hlt
        refine List.pairwise_cons.mpr ⟨fun j hj => ?_, h⟩
        rcases List.mem_cons.mp hj with rfl | hj
        · exact hlt
        · exact Std.lt_trans hlt (hhead j hj)
      · rename_i hnot
        have hkey : k < key := Std.lt_of_le_of_ne (Std.not_lt.mp hnot) (Ne.symm heq)
        refine List.pairwise_cons.mpr ⟨fun j hj => ?_, ih htail⟩
        rcases mem_keys_insertByKey.mp hj with rfl | hj
        · exact hkey
        · exact hhead j hj

/-- **The keys of a table are in order**, so each occurs once. -/
theorem pairwise_keys_foldl_setEntry (h : (table.map Prod.fst).Pairwise (· < ·)) :
    ((entries.foldl setEntry table).map Prod.fst).Pairwise (· < ·) := by
  induction entries generalizing table with
  | nil => exact h
  | cons e es ih => exact ih (pairwise_keys_insertByKey h)

omit [DecidableLT κ] in
/-- **A table in order is known by what can be looked up in it.** -/
theorem eq_of_lookup {table' : List (κ × α)} (h : (table.map Prod.fst).Pairwise (· < ·))
    (h' : (table'.map Prod.fst).Pairwise (· < ·))
    (hlookup : ∀ k, table.lookup k = table'.lookup k) : table = table' := by
  have hkeys : (table.map Prod.fst).Nodup := h.imp fun hlt => Std.ne_of_lt hlt
  have hkeys' : (table'.map Prod.fst).Nodup := h'.imp fun hlt => Std.ne_of_lt hlt
  have hperm : table.Perm table' := by
    refine (List.perm_ext_iff_of_nodup (List.Nodup.of_map _ hkeys)
      (List.Nodup.of_map _ hkeys')).mpr fun e => ?_
    rw [← lookup_eq_some_iff_mem hkeys, ← lookup_eq_some_iff_mem hkeys', hlookup]
  refine hperm.eq_of_pairwise (fun e e' _ _ hlt hgt => ?_) (List.pairwise_map.mp h)
    (List.pairwise_map.mp h')
  exact absurd (Std.lt_trans hlt hgt) Std.lt_irrefl

end

end MapLayers
