import Mathlib.Data.Finset.Card
import MapLayers.Proofs.Check.Local
import MapLayers.Proofs.Check.Order
import MapLayers.Proofs.Check.Rearranged
import MapLayers.Proofs.Check.Switches
import MapLayers.Proofs.Views.Routing

/-!
# What is said twice

Four rules are about things that may be said only once: the name of a layer among all layers, and
the names of its styles, the names of its columns and the systems of its boxes within the layer.
Each of them reports just the second and later occurrences, in order (`Hierarchy.findsRepetitions`),
so there are as many errors as occurrences less distinct things.  An error about a name gives the
first layer of that name, which is never at fault itself.

Names are looked up in a table that the walk fills, and the others in what has been met so far in
the same layer.  Both are compared here with lists in which positions are counted
(`laterOccurrences`).  What is repeated, together with what is not, is everything
(`length_repeated_add`), and this gives the number of errors.

* `Report.ListsRepetitions` says of the errors about a rule and a layer that they are the later
  occurrences of some keys; the three rules about one layer are cases of it
  (`Hierarchy.listsRepetitions_of`).
* `Hierarchy.firstHolder?` is the first holder of the name of a layer when there is one before it.
  It is the first layer that has the name (`Hierarchy.firstHolder?_eq_some_iff`), and the errors
  about names are those of the layers that have one (`Hierarchy.errorsAbout_duplicateName`).
-/

set_option autoImplicit false

namespace MapLayers

/-! ## Occurrences after the first

`repeated` goes through a list with the elements that it has met.  What it gives is compared with
the occurrences that have an equal element before them.  Together with the first occurrences these
are all, and the first occurrences are as many as there are distinct elements. -/

/-- The second and later occurrences of the elements of a list, in order. -/
def laterOccurrences {α : Type} [DecidableEq α] (xs : List α) : List α :=
  (xs.zipIdx.filter fun x => x.1 ∈ xs.take x.2).map Prod.fst

/-- The errors of a report about a rule. -/
def Report.errorsAbout (r : Report) (rule : Rule) : List Finding :=
  r.errors.filter (·.rule == rule)

/-- The errors of a report about a rule and a layer. -/
def Report.errorsAt (r : Report) (rule : Rule) (k : Nat) : List Finding :=
  (r.errorsAbout rule).filter (·.layer == some k)

/-- The errors about a rule and a layer are just the second and later occurrences of some keys. -/
structure Report.ListsRepetitions (r : Report) (rule : Rule) (k : Nat)
    (key : Finding → Option String) (keys : List String) : Prop where
  /-- They are listed in order. -/
  listed : (r.errorsAt rule k).map key = (laterOccurrences keys).map some
  /-- There are as many as keys less distinct ones. -/
  count : (r.errorsAt rule k).length + keys.toFinset.card = keys.length

/-- The names of the columns of a layer. -/
def Attributes.columnNames (a : Attributes) : List String :=
  ((a.source.map Source.columns).getD []).map Column.name

/-- The names of all layers, in pre-order, that are not empty. -/
def Arena.properNames (t : Arena) : List String :=
  ((List.range t.size).filterMap t.name).filter (· ≠ "")

/-- A report on a hierarchy has an error for everything that is said a second time, and no more. -/
structure Hierarchy.FindsRepetitions (h : Hierarchy) (r : Report) : Prop where
  /-- The layers with an error about their name have one, not empty, that a layer before them
  has. -/
  names : ∀ k, (∃ f ∈ r.errorsAbout .duplicateName, f.layer = some k) ↔
    ∃ n, n ≠ "" ∧ h.name k = some n ∧ ∃ j < k, h.name j = some n
  /-- No layer has two such errors. -/
  once : ((r.errorsAbout .duplicateName).map Finding.layer).Nodup
  /-- Such an error refers to the layer that is found by the name.  It is the first one with the
  name, and has no such error. -/
  first : ∀ f ∈ r.errorsAbout .duplicateName, ∃ k n j, f.layer = some k ∧ h.name k = some n ∧
    f.related = some j ∧ h.findByName n = some j ∧ j < k ∧ h.name j = some n ∧
      (∀ i < j, h.name i ≠ some n) ∧ ∀ g ∈ r.errorsAbout .duplicateName, g.layer ≠ some j
  /-- There are as many such errors as names, not empty, less distinct ones. -/
  count : (r.errorsAbout .duplicateName).length + h.properNames.toFinset.card = h.properNames.length
  /-- The errors about style names of a layer follow from the style names of that layer. -/
  styles : ∀ k, r.ListsRepetitions .duplicateStyleName k Finding.style
    ((h.attributes k).styles.map Style.name)
  /-- So do those about columns. -/
  columns : ∀ k, r.ListsRepetitions .duplicateColumn k Finding.detail (h.attributes k).columnNames
  /-- So do those about the systems of boxes. -/
  boxes : ∀ k, r.ListsRepetitions .duplicateBoundingBox k Finding.detail
    ((h.attributes k).boxes.map fun b => b.crs.id)

section

variable {α : Type} [DecidableEq α]

/-- What is repeated, when some elements have been seen already. -/
theorem repeated_eq_filter (seen xs : List α) : repeated seen xs
    = (xs.zipIdx.filter fun x => x.1 ∈ seen ∨ x.1 ∈ xs.take x.2).map Prod.fst := by
  induction xs generalizing seen with
  | nil => rfl
  | cons x xs ih =>
    -- what comes after the first element has it among what was seen before
    have htail (seen' : List α) (h : ∀ y, y ∈ seen' ↔ y ∈ seen ∨ y = x) : repeated seen' xs
        = ((xs.zipIdx.map (Prod.map id (· + 1))).filter fun y =>
            y.1 ∈ seen ∨ y.1 ∈ (x :: xs).take y.2).map Prod.fst := by
      rw [ih, List.filter_map, List.map_map]
      refine congrArg _ (List.filter_congr fun y _ => ?_)
      simp only [Function.comp_apply, Prod.map, id, h, List.take_succ_cons, List.mem_cons, or_assoc]
    rw [repeated, List.zipIdx_cons', List.filter_cons]
    by_cases hx : x ∈ seen
    · simp only [hx, List.take_zero, List.not_mem_nil, or_false, decide_true, if_true,
        List.map_cons]
      rw [htail seen fun y => ⟨Or.inl, fun hy => hy.elim id fun heq => heq ▸ hx⟩]
    · simp only [hx, List.take_zero, List.not_mem_nil, or_false, decide_false, if_false,
        Bool.false_eq_true]
      exact htail (x :: seen) fun y => by rw [List.mem_cons, or_comm]

theorem repeated_eq_laterOccurrences (xs : List α) : repeated [] xs = laterOccurrences xs := by
  rw [repeated_eq_filter, laterOccurrences]
  simp only [List.not_mem_nil, false_or]

/-- **What is repeated, together with what is not, is everything.** -/
theorem length_repeated_add (seen xs : List α) :
    (repeated seen xs).length + (xs.toFinset \ seen.toFinset).card = xs.length := by
  induction xs generalizing seen with
  | nil => simp [repeated]
  | cons x xs ih =>
    rw [repeated, List.toFinset_cons]
    split
    · rename_i hx
      rw [Finset.insert_sdiff_of_mem _ (List.mem_toFinset.mpr hx), List.length_cons,
        List.length_cons, ← ih seen, Nat.add_right_comm]
    · rename_i hx
      have hcard : (insert x xs.toFinset \ seen.toFinset).card
          = (xs.toFinset \ (x :: seen).toFinset).card + 1 := by
        rw [Finset.insert_sdiff_of_notMem _ (mt List.mem_toFinset.mp hx), List.toFinset_cons,
          Finset.sdiff_insert, ← Finset.card_erase_add_one (Finset.mem_insert_self x _),
          Finset.erase_insert_eq_erase]
      rw [hcard, List.length_cons, ← ih (x :: seen), Nat.add_assoc]

theorem length_laterOccurrences_add (xs : List α) :
    (laterOccurrences xs).length + xs.toFinset.card = xs.length := by
  have h := length_repeated_add [] xs
  rwa [repeated_eq_laterOccurrences, List.toFinset_nil, Finset.sdiff_empty] at h

example : laterOccurrences ["b", "a", "b", "b", "c", "a"] = ["b", "b", "a"] := by decide

/-- What is repeated does not depend on how things are called. -/
theorem map_repeated {β : Type} [DecidableEq β] {f : α → β} (hf : Function.Injective f)
    (xs seen : List α) : (repeated seen xs).map f = repeated (seen.map f) (xs.map f) := by
  induction xs generalizing seen with
  | nil => rfl
  | cons x xs ih =>
    rw [repeated, List.map_cons, repeated]
    simp only [List.mem_map_of_injective hf]
    split
    · rw [List.map_cons, ih]
    · rw [ih, List.map_cons]

end

/-! ## Findings about repetitions

For each of the three rules about one layer, the findings about the rule among those of its check.
-/

/-- A second style of one name. -/
def repeatedStyle (name : String) : Finding :=
  { Finding.of .duplicateStyleName with style := some name, field := some .styles }

/-- A second column of one name. -/
def repeatedColumn (name : String) : Finding :=
  { Finding.of .duplicateColumn with field := some .columns, detail := some name }

/-- A second layer of one name. -/
def repeatedName (first : Nat) : Finding :=
  { Finding.of .duplicateName with field := some .name, related := some first }

section

variable {s : Settings} {a : Attributes} {role : Role}

/-- Of findings about other rules, none is about a given one. -/
theorem filter_rule_eq_nil {fs : List Finding} {rule : Rule} (h : ∀ f ∈ fs, f.rule ≠ rule) :
    fs.filter (·.rule == rule) = [] :=
  List.filter_eq_nil_iff.mpr fun f hf heq => h f hf (beq_iff_eq.mp heq)

theorem filter_rule_eq_self {fs : List Finding} {rule : Rule} (h : ∀ f ∈ fs, f.rule = rule) :
    fs.filter (·.rule == rule) = fs :=
  List.filter_eq_self.mpr fun f hf => beq_iff_eq.mpr (h f hf)

theorem filter_checkStyles_repeated : (checkStyles s a role).filter (·.rule == .duplicateStyleName)
    = (repeated [] (a.styles.map Style.name)).map repeatedStyle := by
  have hsplit : checkStyles s a role
      = (repeated [] (a.styles.map Style.name)).map repeatedStyle ++ drawingFindings s a role := rfl
  have hdrawing : ∀ f ∈ drawingFindings s a role, f.rule ≠ .duplicateStyleName := by
    intro f hf hrule
    have hswitch := (switched_drawingFindings f hf).1
    rw [hrule] at hswitch
    exact absurd hswitch (by decide)
  rw [hsplit, List.filter_append, filter_rule_eq_nil hdrawing, List.append_nil]
  exact filter_rule_eq_self (List.forall_mem_map.mpr fun _ _ => rfl)

theorem filter_checkSource_repeated : (checkSource s a role).filter (·.rule == .duplicateColumn)
    = (repeated [] a.columnNames).map repeatedColumn := by
  rw [checkSource, Attributes.columnNames]
  split
  · rename_i hsource
    rw [hsource]
    split <;> rfl
  · rename_i source hsource
    rw [hsource, List.filter_append, filter_rule_eq_nil, List.nil_append]
    · exact filter_rule_eq_self (List.forall_mem_map.mpr fun _ _ => rfl)
    · refine List.forall_mem_append.mpr ⟨?_, ?_⟩
      · split
        · exact List.forall_mem_nil _
        · exact List.forall_mem_singleton.mpr (by decide)
      · split
        · exact List.forall_mem_singleton.mpr (by simp [Finding.of])
        · exact List.forall_mem_nil _

theorem filter_checkName_repeated {names : Holders} :
    (checkName names a role).filter (·.rule == .duplicateName)
      = (a.properName.bind fun n => names.lookup n).toList.map repeatedName := by
  rw [checkName]
  split
  · rename_i hname
    rw [hname]
    split <;> rfl
  · rename_i n hname
    rw [hname, Option.bind_some]
    split <;> (rename_i hlookup; rw [hlookup]; rfl)

/-- The boxes that are reported as second ones are those for systems met before. -/
theorem filter_checkDeclaredBoxes_repeated {inherited : Crs → Option EffectiveBox} :
    ∀ (bs : List DeclaredBox) (seen : List Crs),
      (checkDeclaredBoxes inherited seen bs).filter (·.rule == .duplicateBoundingBox)
        = (repeated seen (bs.map DeclaredBox.crs)).map duplicateBox
  | [], _ => rfl
  | b :: bs, seen => by
    rw [checkDeclaredBoxes_eq_append, List.filter_append,
      filter_checkDeclaredBoxes_repeated bs, List.map_cons, repeated, boxFindings]
    split
    · rfl
    · rw [filter_rule_eq_nil
        (List.forall_mem_map.mpr fun _ _ => by simp [redundantBox, Finding.of])]
      rfl

/-- What is said about a whole layer's boxes has the same second ones, by their identifiers. -/
theorem filter_boxes_repeated {inherited : Crs → Option EffectiveBox}
    {effective : Option EffectiveBox} {bs : List DeclaredBox} :
    (checkDeclaredBoxes inherited [] bs ++ checkPrimaryBox s effective).filter
        (·.rule == .duplicateBoundingBox)
      = (repeated [] (bs.map fun b => b.crs.id)).map fun id => duplicateBox ⟨id⟩ := by
  have hprimary : ∀ f ∈ checkPrimaryBox s effective, f.rule ≠ .duplicateBoundingBox := by
    intro f hf
    rw [rule_of_mem_checkPrimaryBox hf]
    decide
  have hid : (bs.map fun b => b.crs.id) = (bs.map DeclaredBox.crs).map Crs.id :=
    List.map_map.symm
  have hinjective : Function.Injective Crs.id := fun _ _ h => congrArg Crs.mk h
  have hids : repeated [] (bs.map fun b => b.crs.id)
      = (repeated [] (bs.map DeclaredBox.crs)).map Crs.id := by
    rw [hid, map_repeated hinjective]
    rfl
  rw [List.filter_append, filter_checkDeclaredBoxes_repeated, filter_rule_eq_nil hprimary,
    List.append_nil, hids, List.map_map]
  rfl

end

namespace Hierarchy

variable {h : Hierarchy} {l : Layer} {primary : Crs} {s : Settings} {k : Nat} {rule : Rule}

/-- The errors about a rule for errors are the findings about it. -/
theorem errorsAbout_check (hrule : rule.severity = .error) :
    ((ofLayer l primary).check s).errorsAbout rule
      = ((ofLayer l primary).findings s).filter (·.rule == rule) := by
  rw [Report.errorsAbout, errors_check, filter_rule_of_severity, if_pos hrule]

/-- The findings about a layer and a rule are made by the check for the group of the rule. -/
theorem errorsAt_check (hrule : rule.severity = .error) (hk : k < (ofLayer l primary).size) :
    ((ofLayer l primary).check s).errorsAt rule k
      = (((ofLayer l primary).groupFindings s ((ofLayer l primary).forbiddenShared s)
          ((ofLayer l primary).holdersBefore k) k rule.group).filter (·.rule == rule)).map
            (·.located k ((ofLayer l primary).attributes k).name) := by
  rw [Report.errorsAt, errorsAbout_check hrule, filter_rule_layer_findings, if_pos hk]

theorem errorsAt_check_of_size_le (hrule : rule.severity = .error)
    (hk : (ofLayer l primary).size ≤ k) : ((ofLayer l primary).check s).errorsAt rule k = [] := by
  rw [Report.errorsAt, errorsAbout_check hrule, filter_rule_layer_findings,
    if_neg (Nat.not_lt.mpr hk)]

/-- **What is reported as a repetition in a layer is one.** -/
theorem listsRepetitions_of (keys : Attributes → List String) {key : Finding → Option String}
    {mk : String → Finding} (hrule : rule.severity = .error) (hempty : keys {} = [])
    (hfilter : ((ofLayer l primary).groupFindings s ((ofLayer l primary).forbiddenShared s)
      ((ofLayer l primary).holdersBefore k) k rule.group).filter (·.rule == rule)
        = (repeated [] (keys ((ofLayer l primary).attributes k))).map mk)
    (hkey : ∀ n name, key ((mk n).located k name) = some n) :
    ((ofLayer l primary).check s).ListsRepetitions rule k key
      (keys ((ofLayer l primary).attributes k)) := by
  have hlisted : (((ofLayer l primary).check s).errorsAt rule k).map key
      = (laterOccurrences (keys ((ofLayer l primary).attributes k))).map some := by
    by_cases hk : k < (ofLayer l primary).size
    · rw [errorsAt_check hrule hk, hfilter, List.map_map, List.map_map,
        repeated_eq_laterOccurrences]
      exact List.map_congr_left fun n _ => hkey n _
    · rw [errorsAt_check_of_size_le hrule (Nat.not_lt.mp hk),
        Arena.attributes_of_size_le (Nat.not_lt.mp hk), hempty]
      rfl
  refine ⟨hlisted, ?_⟩
  have hlength := congrArg List.length hlisted
  rw [List.length_map, List.length_map] at hlength
  rw [hlength, length_laterOccurrences_add]

/-! ## Names

The fourth rule is about all layers.  Here a repetition is a layer with a name that a layer before
it has, and the table of the walk gives the first of these. -/

/-- The first holder of the name of a layer, when there is one before it. -/
def firstHolder? (h : Hierarchy) (k : Nat) : Option Nat :=
  (h.attributes k).properName.bind fun n => (h.holdersBefore k).lookup n

theorem properName_beq_iff {n : String} (hn : n ≠ "") :
    ((h.attributes k).properName == some n) = true ↔ h.name k = some n := by
  rw [beq_iff_eq, Attributes.properName_eq_some_iff, and_iff_left hn]
  rfl

theorem find?_properName_eq_some_iff {n : String} {j : Nat} (hn : n ≠ "") :
    ((List.range k).find? fun i => (h.attributes i).properName == some n) = some j ↔
      j < k ∧ h.name j = some n ∧ ∀ i < j, h.name i ≠ some n := by
  rw [List.find?_range_eq_some, properName_beq_iff hn, List.mem_range]
  refine and_left_comm.trans (and_congr_right fun _ => and_congr_right fun _ => ?_)
  refine forall_congr' fun i => imp_congr_right fun _ => ?_
  rw [Bool.not_eq_true', ← Bool.not_eq_true, properName_beq_iff hn]

/-- **The first holder of a name is the first layer that has it.** -/
theorem firstHolder?_eq_some_iff {j : Nat} : h.firstHolder? k = some j ↔
    ∃ n, n ≠ "" ∧ h.name k = some n ∧ j < k ∧ h.name j = some n ∧ ∀ i < j, h.name i ≠ some n := by
  rw [firstHolder?, Option.bind_eq_some_iff]
  refine exists_congr fun n => ?_
  rw [Attributes.properName_eq_some_iff, and_comm (b := n ≠ ""), and_assoc]
  refine and_congr_right fun hn => and_congr Iff.rfl ?_
  rw [lookup_holdersBefore, find?_properName_eq_some_iff hn]

/-- There is one just when some layer before has the name. -/
theorem isSome_firstHolder?_iff : (h.firstHolder? k).isSome ↔
    ∃ n, n ≠ "" ∧ h.name k = some n ∧ ∃ j < k, h.name j = some n := by
  rw [firstHolder?, Option.isSome_bind, Option.any_eq_true]
  refine exists_congr fun n => ?_
  rw [Attributes.properName_eq_some_iff, and_comm (b := n ≠ ""), and_assoc]
  refine and_congr_right fun hn => and_congr Iff.rfl ?_
  rw [lookup_holdersBefore, List.find?_isSome]
  simp only [List.mem_range, properName_beq_iff hn]

/-- The errors about names, layer by layer. -/
theorem errorsAbout_duplicateName (l : Layer) (primary : Crs) (s : Settings) :
    ((ofLayer l primary).check s).errorsAbout .duplicateName
      = (ofLayer l primary).all.flatMap fun k => ((ofLayer l primary).firstHolder? k).toList.map
          fun j => (repeatedName j).located k ((ofLayer l primary).name k) := by
  rw [errorsAbout_check rfl, filter_rule_eq, filter_group_findings l primary s (by decide),
    List.filter_flatMap]
  refine List.flatMap_congr fun k _ => ?_
  rw [List.filter_map]
  change (List.filter (·.rule == .duplicateName) (checkName _ _ _)).map _ = _
  rw [filter_checkName_repeated, List.map_map]
  rfl

theorem mem_errorsAbout_duplicateName_iff {f : Finding} :
    f ∈ ((ofLayer l primary).check s).errorsAbout .duplicateName ↔
      ∃ k < (ofLayer l primary).size, ∃ j, (ofLayer l primary).firstHolder? k = some j ∧
        (repeatedName j).located k ((ofLayer l primary).name k) = f := by
  rw [errorsAbout_duplicateName, List.mem_flatMap]
  simp only [mem_all_iff, List.mem_map, Option.mem_toList]

/-- Every layer has at most one error about its name. -/
theorem nodup_layers_duplicateName (l : Layer) (primary : Crs) (s : Settings) :
    ((((ofLayer l primary).check s).errorsAbout .duplicateName).map Finding.layer).Nodup := by
  rw [errorsAbout_duplicateName, List.map_flatMap, List.Nodup, List.pairwise_flatMap]
  refine ⟨fun k _ => ?_, ?_⟩
  · cases (ofLayer l primary).firstHolder? k with
    | none => exact .nil
    | some j => exact List.pairwise_singleton _ _
  · rw [all_eq_range]
    refine List.pairwise_lt_range.imp fun {j k} hjk f hf g hg => ?_
    rw [List.map_map] at hf hg
    obtain ⟨_, -, rfl⟩ := List.mem_map.mp hf
    obtain ⟨_, -, rfl⟩ := List.mem_map.mp hg
    exact fun heq => Nat.ne_of_lt hjk (Option.some.inj heq)

theorem properNames_eq (h : Hierarchy) :
    h.properNames = (List.range h.size).filterMap fun k => (h.attributes k).properName := by
  rw [Arena.properNames, List.filter_filterMap]
  refine List.filterMap_congr fun k _ => ?_
  rw [Attributes.properName]
  congr 1
  funext n
  rw [Bool.eq_iff_iff]
  simp

/-- There are as many errors about names as repetitions among them. -/
theorem length_errorsAbout_duplicateName (l : Layer) (primary : Crs) (s : Settings) :
    (((ofLayer l primary).check s).errorsAbout .duplicateName).length
      = (repeated [] (ofLayer l primary).properNames).length := by
  rw [errorsAbout_duplicateName, properNames_eq, ← flatMap_heldNames, all_eq_range,
    List.length_flatMap, List.length_flatMap]
  refine congrArg List.sum (List.map_congr_left fun k _ => ?_)
  rw [List.length_map, firstHolder?]
  cases ((ofLayer l primary).attributes k).properName with
  | none => rfl
  | some n =>
    rw [Option.bind_some, Option.toList_some, List.filter_singleton]
    cases ((ofLayer l primary).holdersBefore k).lookup n <;> rfl

/-! ## The report -/

/-- **Everything that is said a second time is found**, and nothing else. -/
theorem findsRepetitions (l : Layer) (primary : Crs) (s : Settings) :
    (ofLayer l primary).FindsRepetitions ((ofLayer l primary).check s) where
  names k := by
    rw [← isSome_firstHolder?_iff, Option.isSome_iff_exists]
    refine ⟨?_, ?_⟩
    · rintro ⟨f, hf, hlayer⟩
      obtain ⟨k', -, j, hj, rfl⟩ := mem_errorsAbout_duplicateName_iff.mp hf
      obtain rfl : k' = k := Option.some.inj hlayer
      exact ⟨j, hj⟩
    · rintro ⟨j, hj⟩
      obtain ⟨n, -, hname, -⟩ := firstHolder?_eq_some_iff.mp hj
      exact ⟨_, mem_errorsAbout_duplicateName_iff.mpr
        ⟨k, Arena.lt_size_of_name hname, j, hj, rfl⟩, rfl⟩
  once := nodup_layers_duplicateName l primary s
  first f hf := by
    obtain ⟨k, hk, j, hj, rfl⟩ := mem_errorsAbout_duplicateName_iff.mp hf
    obtain ⟨n, hn, hname, hheld⟩ := firstHolder?_eq_some_iff.mp hj
    have hfound := (findByName_of_find? (Nat.le_of_lt hk) hn
      ((find?_properName_eq_some_iff hn).mpr hheld)).2
    obtain ⟨hlt, hfirst, hbefore⟩ := hheld
    refine ⟨k, n, j, rfl, hname, rfl, hfound, hlt, hfirst, hbefore, fun g hg hlayer => ?_⟩
    -- an error about the first holder would name an earlier one
    obtain ⟨k', -, i, hi, rfl⟩ := mem_errorsAbout_duplicateName_iff.mp hg
    obtain rfl : k' = j := Option.some.inj hlayer
    obtain ⟨n', -, hname', hlt', hfirst', -⟩ := firstHolder?_eq_some_iff.mp hi
    obtain rfl : n' = n := Option.some.inj (hname'.symm.trans hfirst)
    exact hbefore i hlt' hfirst'
  count := by
    rw [length_errorsAbout_duplicateName, repeated_eq_laterOccurrences, length_laterOccurrences_add]
  styles _ := listsRepetitions_of (fun a => a.styles.map Style.name) rfl rfl
    filter_checkStyles_repeated fun _ _ => rfl
  columns _ := listsRepetitions_of Attributes.columnNames rfl rfl
    filter_checkSource_repeated fun _ _ => rfl
  boxes _ := listsRepetitions_of (fun a => a.boxes.map fun b => b.crs.id) rfl rfl
    filter_boxes_repeated fun _ _ => rfl

end Hierarchy

end MapLayers
