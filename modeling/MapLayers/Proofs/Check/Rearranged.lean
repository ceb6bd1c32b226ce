import Mathlib.Data.List.Perm.Lattice
import MapLayers.Proofs.Check.Acceptance
import MapLayers.Proofs.Check.Collisions
import MapLayers.Proofs.Check.Primary
import MapLayers.Proofs.Layout.Outlooks
import MapLayers.Samples

/-!
# Sibling order has no bearing on the verdict

What is found at a layer follows from its outlook, but for two things: positions, and which of the
layers of one name are blamed for having it.  Positions are left out of the comparison
(`Finding.unplaced`).  As to names, a name that *n* layers have is reported *n* - 1 times, whichever
of them comes first (`perm_repeated`).  So the report on a tree is made up from the list of its
outlooks (`Hierarchy.perm_unplaced_findings`), the order of which does not matter, and two trees
that differ in the order of siblings have the same findings (`Hierarchy.check_rearranged`).

`Outlook.findings` is the check of a layer written once more, without positions, and
`Outlook.report` that of a tree.  Each reader of the hierarchy has its counterpart: what is
inherited is the nearest box above (`Outlook.inheritedBox`), and the styles shared with the parent
are those of the first layer above.  What comes of names that are held already is the one part that
outlooks do not have, and it is counted for the tree as a whole.

The two layers in the example have one name.  Putting them in the other order blames the other one,
and changes nothing else.
-/

set_option autoImplicit false

namespace MapLayers

/-! ## Repetitions

However a list is ordered, an element that occurs *n* times in it is repeated *n* - 1 times.  The
findings of a tree interleave what is repeated with what is said about each layer, and come to the
same up to order as the two said separately. -/

section Repeated

variable {α : Type} [DecidableEq α]

/-- An element is repeated as often as it occurs, except for the first time that it is seen. -/
theorem count_repeated (x : α) (seen xs : List α) :
    (repeated seen xs).count x = if x ∈ seen then xs.count x else xs.count x - 1 := by
  induction xs generalizing seen with
  | nil => simp [repeated]
  | cons y ys ih =>
    rw [repeated]
    by_cases hy : y ∈ seen
    · rw [if_pos hy, List.count_cons, List.count_cons, ih]
      by_cases hxy : y = x
      · subst hxy
        rw [if_pos hy, if_pos hy]
      · simp [hxy]
    · rw [if_neg hy, ih, List.count_cons]
      by_cases hxy : y = x
      · subst hxy
        simp [hy]
      · simp [hxy, Ne.symm hxy]

/-- **What is repeated in a list does not depend on its order.** -/
theorem perm_repeated {xs ys : List α} (h : xs.Perm ys) :
    (repeated [] xs).Perm (repeated [] ys) := by
  rw [List.perm_iff_count]
  intro x
  rw [count_repeated, count_repeated, h.count_eq]

theorem repeated_concat (seen xs : List α) (x : α) : repeated seen (xs ++ [x])
    = repeated seen xs ++ if x ∈ seen ∨ x ∈ xs then [x] else [] := by
  induction xs generalizing seen with
  | nil => by_cases hx : x ∈ seen <;> simp [repeated, hx]
  | cons y ys ih =>
    rw [List.cons_append, repeated, repeated]
    by_cases hy : y ∈ seen
    · have hiff : x ∈ seen ∨ x ∈ ys ↔ x ∈ seen ∨ x ∈ y :: ys := by
        rw [List.mem_cons]
        exact ⟨fun h => h.imp_right Or.inr,
          fun h => h.elim Or.inl fun h => h.elim (fun heq => Or.inl (heq ▸ hy)) Or.inr⟩
      rw [if_pos hy, if_pos hy, ih, List.cons_append]
      simp only [hiff]
    · have hiff : x ∈ y :: seen ∨ x ∈ ys ↔ x ∈ seen ∨ x ∈ y :: ys := by
        rw [List.mem_cons, List.mem_cons]
        tauto
      rw [if_neg hy, if_neg hy, ih]
      simp only [hiff]

end Repeated

/-- Going through related lists, where what is said about an element comes in two parts. -/
theorem perm_flatMap_of_forall₂ {α β γ : Type} {R : α → β → Prop} {f g : α → List γ}
    {g' : β → List γ} {xs : List α} {ys : List β} (h : List.Forall₂ R xs ys)
    (hf : ∀ x ∈ xs, ∀ y, R x y → f x = g x ++ g' y) :
    (xs.flatMap f).Perm (xs.flatMap g ++ ys.flatMap g') := by
  induction h with
  | nil => exact .refl _
  | @cons x y xs ys hxy _ ih =>
    rw [List.forall_mem_cons] at hf
    rw [List.flatMap_cons, List.flatMap_cons, List.flatMap_cons, hf.1 y hxy, List.append_assoc,
      List.append_assoc]
    refine List.Perm.append_left _ (((ih hf.2).append_left _).trans ?_)
    rw [← List.append_assoc, ← List.append_assoc]
    exact List.perm_append_comm.append_right _

/-! ## Findings without positions

Two things about a finding change when layers are rearranged, the positions of the layer and of a
second layer.  Everything else in it stays: the names by which it refers to the layer, a style, a
field. -/

namespace Finding

/-- A finding without the positions of the layer at fault and of a second layer. -/
def unplaced (f : Finding) : Finding := { f with layer := none, related := none }

/-- A finding about a layer of the given name, without its position. -/
def ofName (f : Finding) (name : Option String) : Finding :=
  { f with layer := none, layerName := name, related := none }

/-- A layer has the name of another one. -/
def duplicateNamed (name : String) : Finding :=
  { Finding.of .duplicateName with field := some .name, layerName := some name }

end Finding

/-- The report on a name is about a name that is missing, or about one that is held already. -/
theorem map_ofName_checkName (names : Holders) (a : Attributes) (role : Role) :
    (checkName names a role).map (·.ofName a.name)
      = (a.properName.toList.filter fun n => (names.lookup n).isSome).map Finding.duplicateNamed
        ++ (checkName .empty a role).map (·.ofName a.name) := by
  cases hname : a.properName with
  | none =>
    rw [checkName, checkName, hname]
    rfl
  | some n =>
    have hempty : checkName .empty a role = [] := by rw [checkName, hname]; rfl
    have hn := (Attributes.properName_eq_some_iff.mp hname).1
    rw [hempty, List.map_nil, List.append_nil, checkName, hname, hn]
    cases hlookup : names.lookup n with
    | none => simp [hlookup]
    | some first =>
      simp only [hlookup, Option.toList_some, List.filter_cons, Option.isSome_some, if_true]
      rfl

/-- What is said about boxes names no other layer, once positions are left out. -/
theorem map_ofName_checkDeclaredBoxes {inherited inherited' : Crs → Option EffectiveBox}
    (name : Option String)
    (h : ∀ c, (inherited c).map EffectiveBox.rect = (inherited' c).map EffectiveBox.rect)
    (bs : List DeclaredBox) (seen : List Crs) :
    (checkDeclaredBoxes inherited seen bs).map (·.ofName name)
      = (checkDeclaredBoxes inherited' seen bs).map (·.ofName name) := by
  induction bs generalizing seen with
  | nil => rfl
  | cons b bs ih =>
    have hb : (boxFindings inherited seen b).map (·.ofName name)
        = (boxFindings inherited' seen b).map (·.ofName name) := by
      have hrect := h b.crs
      rw [boxFindings, boxFindings]
      split
      · rfl
      · cases hi : inherited b.crs with
        | none =>
          rw [hi] at hrect
          rw [Option.map_eq_none_iff.mp hrect.symm]
        | some e =>
          rw [hi] at hrect
          obtain ⟨e', he', heq⟩ := Option.map_eq_some_iff.mp hrect.symm
          rw [he', Option.filter, Option.filter, heq]
          cases e.rect == b.rect <;> rfl
    rw [checkDeclaredBoxes_cons, checkDeclaredBoxes_cons, List.map_append, List.map_append, hb, ih]

/-! ## What an outlook says

The check once more, for an outlook in place of a position.  It leaves out one rule, that a name is
held already; `Outlook.report` adds what is repeated among the names of all outlooks. -/

/-- The names of the styles of a layer that another layer has too. -/
def Attributes.sharedWith (a parent : Attributes) : List String :=
  (a.styles.filter fun s => (parent.style? s.name).isSome).map Style.name

namespace Outlook

/-- The nearest box above, as if it were declared here. -/
def inheritedBox (o : Outlook) (c : Crs) : Option EffectiveBox :=
  o.above.findSome? (·.declaredBox c)

/-- What is inherited is explicit. -/
theorem explicit_inheritedBox_iff (o : Outlook) (c : Crs) :
    (o.inheritedBox c).map EffectiveBox.isExplicit = some true ↔ (o.inheritedBox c).isSome := by
  cases hi : o.inheritedBox c with
  | none => simp
  | some e =>
    obtain ⟨a, -, ha⟩ := List.exists_of_findSome?_eq_some hi
    obtain ⟨b, -, rfl⟩ := Option.map_eq_some_iff.mp ha
    simp [EffectiveBox.isExplicit]

/-- The names of the styles shared with the parent, where that is an error. -/
def forbiddenShared (o : Outlook) (s : Settings) : List String :=
  if s.forbidsSharedStyles then o.above.head?.elim [] o.attributes.sharedWith else []

/-- What is found at a layer with a given outlook, other than names that are held already. -/
def findings (o : Outlook) (s : Settings) : List Finding :=
  (checkName .empty o.attributes o.role ++ checkVisibility o.attributes o.role
    ++ checkStyles s o.attributes o.role ++ checkSource s o.attributes o.role
    ++ checkScales o.attributes ++ checkDeclaredBoxes o.inheritedBox [] o.attributes.boxes
    ++ checkPrimaryBox s ((o.attributes.declaredBox s.primary).or (o.inheritedBox s.primary))
    ++ checkSharedStyles o.attributes none (o.forbiddenShared s)).map (·.ofName o.attributes.name)

/-- What is found in a tree with given outlooks. -/
def report (s : Settings) (os : List Outlook) : List Finding :=
  (repeated [] (os.filterMap (·.attributes.properName))).map Finding.duplicateNamed
    ++ os.flatMap (·.findings s)
    ++ if os.any (·.attributes.isVisible) then [] else [Finding.of .noVisibleLayer]

/-- **The order of the outlooks has no bearing on what is found.** -/
theorem perm_report {s : Settings} {os os' : List Outlook} (h : os.Perm os') :
    (report s os).Perm (report s os') := by
  have hany : os.any (·.attributes.isVisible) = os'.any (·.attributes.isVisible) := by
    rw [Bool.eq_iff_iff, List.any_eq_true, List.any_eq_true]
    exact exists_congr fun o => and_congr_left' h.mem_iff
  rw [report, report, hany]
  exact (((perm_repeated (h.filterMap _)).map _).append (h.flatMap_right _)).append_right _

end Outlook

namespace Hierarchy

variable {l l' : Layer} {primary : Crs} {s : Settings} {k : Nat} {o : Outlook}

/-! ## From an arena to its outlooks

A layer of an arena that sees an outlook has the findings of that outlook.  The proof goes through
the readers: boxes, styles of the parent, visibility. -/

/-- What is inherited is the nearest box above. -/
theorem map_rect_inheritedBox (c : Crs) : ∀ (above : List Attributes) (k : Nat),
    (ofLayer l primary).Chain ((ofLayer l primary).parent k) above →
      ((ofLayer l primary).inheritedBox k c).map EffectiveBox.rect
        = (above.findSome? (·.declaredBox c)).map EffectiveBox.rect
  | [], k, h => by
    have hnone : (ofLayer l primary).parent k = none := h
    rw [inheritedBox_eq, hnone]
    rfl
  | a :: as, k, ⟨p, hparent, ha, hchain⟩ => by
    have ih := map_rect_inheritedBox c as p hchain
    rw [inheritedBox_of_parent hparent, ha, List.findSome?_cons, Attributes.declaredBox]
    cases a.box? c with
    | none => exact ih
    | some b => rfl

/-- The rule about the primary system can be told from the outlook. -/
theorem checkPrimaryBox_outlook (hk : k < (ofLayer l primary).size)
    (h : (ofLayer l primary).Sees k o) :
    checkPrimaryBox s ((ofLayer l primary).effectiveBox k s.primary)
      = checkPrimaryBox s
          ((o.attributes.declaredBox s.primary).or (o.inheritedBox s.primary)) := by
  have ha : (ofLayer l primary).attributes k = o.attributes := h.attributes
  refine checkPrimaryBox_congr_iff ?_
  rw [effectiveBox_of_lt hk, ha]
  cases o.attributes.declaredBox s.primary with
  | some e => exact Iff.rfl
  | none =>
    have hrect := congrArg Option.isSome (map_rect_inheritedBox s.primary o.above k h.above)
    rw [Option.isSome_map, Option.isSome_map] at hrect
    rw [Option.none_or, Option.none_or, Outlook.explicit_inheritedBox_iff, Outlook.inheritedBox,
      ← hrect, ← explicit_inheritedBox_iff]
    cases (ofLayer l primary).inheritedBox k s.primary with
    | some e => exact Iff.rfl
    | none => simpa using not_explicit_standardBox primary s.primary

theorem sharedWithParent_outlook (h : (ofLayer l primary).Sees k o) :
    (ofLayer l primary).sharedWithParent k = o.above.head?.elim [] o.attributes.sharedWith := by
  have ha : (ofLayer l primary).attributes k = o.attributes := h.attributes
  have habove := h.above
  rw [Arena.sharedWithParent]
  cases hparent : (ofLayer l primary).parent k with
  | none =>
    rw [hparent, Arena.chain_none_iff] at habove
    rw [habove]
    rfl
  | some p =>
    rw [hparent] at habove
    obtain ⟨as, hcons, -⟩ := Arena.chain_some_iff.mp habove
    rw [hcons, ← ha]
    rfl

/-- **What is found at a layer follows from its outlook**, and from the names before it. -/
theorem map_unplaced_layerFindings (hk : k < (ofLayer l primary).size)
    (h : (ofLayer l primary).Sees k o) (names : Holders) :
    ((ofLayer l primary).layerFindings s ((ofLayer l primary).forbiddenShared s) names k).map
        Finding.unplaced
      = (o.attributes.properName.toList.filter fun n => (names.lookup n).isSome).map
          Finding.duplicateNamed ++ o.findings s := by
  have ha : (ofLayer l primary).attributes k = o.attributes := h.attributes
  have hrole : (ofLayer l primary).role k = o.role := h.role
  have hplace : (Finding.unplaced ∘ fun f : Finding => f.located k o.attributes.name)
      = fun f : Finding => f.ofName o.attributes.name := rfl
  have hboxes := map_ofName_checkDeclaredBoxes o.attributes.name
    (fun c => map_rect_inheritedBox c o.above k h.above) o.attributes.boxes []
  have hshared : (((ofLayer l primary).forbiddenShared s).lookup k).getD []
      = o.forbiddenShared s := by
    rw [getD_lookup_forbiddenShared hk, sharedWithParent_outlook h]
    rfl
  have hcollisions (parent : Option Nat) :
      (checkSharedStyles o.attributes parent (o.forbiddenShared s)).map (·.ofName o.attributes.name)
        = (checkSharedStyles o.attributes none (o.forbiddenShared s)).map
            (·.ofName o.attributes.name) := by
    rw [checkSharedStyles, checkSharedStyles]
    split
    · rw [List.map_map, List.map_map]
      rfl
    · rfl
  rw [layerFindings, List.map_map, ha, hrole, hplace, hshared, checkPrimaryBox_outlook hk h]
  simp only [List.map_append, Outlook.findings]
  rw [map_ofName_checkName, hboxes, hcollisions]
  simp only [List.append_assoc]
  rfl

/-! ## From a tree to its outlooks

All layers together, with the names that are held already as what is repeated among the names met on
the way. -/

/-- The names that are held already, layer by layer, are those that are repeated. -/
theorem flatMap_heldNames (h : Hierarchy) (m : Nat) :
    ((List.range m).flatMap fun k => (h.attributes k).properName.toList.filter fun n =>
        ((h.holdersBefore k).lookup n).isSome)
      = repeated [] ((List.range m).filterMap fun k => (h.attributes k).properName) := by
  induction m with
  | zero => rfl
  | succ m ih =>
    rw [List.range_succ, List.flatMap_append, List.filterMap_append, ih, List.flatMap_singleton]
    cases hname : (h.attributes m).properName with
    | none => simp [hname]
    | some n =>
      have hheld : ((h.holdersBefore m).lookup n).isSome = true ↔
          n ∈ [] ∨ n ∈ (List.range m).filterMap fun k => (h.attributes k).properName := by
        rw [lookup_holdersBefore, List.find?_isSome, List.mem_filterMap]
        simp
      rw [List.filterMap_cons, hname, List.filterMap_nil, repeated_concat, Option.toList_some,
        List.filter_cons, List.filter_nil]
      simp only [hheld]

theorem filterMap_properName_all (l : Layer) (primary : Crs) :
    ((ofLayer l primary).all.filterMap fun k => ((ofLayer l primary).attributes k).properName)
      = (l.outlooks []).filterMap (·.attributes.properName) := by
  have h := congrArg (List.filterMap Attributes.properName) (Arena.map_attributes_all l)
  rw [List.filterMap_map, List.filterMap_map] at h
  exact h

theorem checkAnyVisible_eq (l : Layer) (primary : Crs) : (ofLayer l primary).checkAnyVisible
    = if (l.outlooks []).any (·.attributes.isVisible) then []
      else [Finding.of .noVisibleLayer] := by
  have h := congrArg (List.any · Attributes.isVisible) (Arena.map_attributes_all l)
  simp only [List.any_map] at h
  rw [checkAnyVisible]
  exact congrArg (fun b : Bool => if b then [] else [Finding.of .noVisibleLayer]) h

/-- **What is found in a tree is the report on its outlooks**, in some order. -/
theorem perm_unplaced_findings (l : Layer) (primary : Crs) (s : Settings) :
    (((ofLayer l primary).findings s).map Finding.unplaced).Perm
      (Outlook.report s (l.outlooks [])) := by
  have hwhole : (ofLayer l primary).checkAnyVisible.map Finding.unplaced
      = (ofLayer l primary).checkAnyVisible := by
    rw [checkAnyVisible]
    split <;> rfl
  have hheld := flatMap_heldNames (ofLayer l primary) l.count
  have hall : List.range l.count = (ofLayer l primary).all := (Arena.all_eq_range l).symm
  rw [hall, filterMap_properName_all] at hheld
  rw [findings_eq, List.map_append, hwhole, checkAnyVisible_eq, List.map_flatMap, Outlook.report,
    ← hheld, List.map_flatMap]
  refine List.Perm.append_right _ (perm_flatMap_of_forall₂ (Arena.sees_all l) fun k hk o ho => ?_)
  have ha : (ofLayer l primary).attributes k = o.attributes := ho.attributes
  rw [ha]
  exact map_unplaced_layerFindings (mem_all_iff.mp hk) ho _

/-! ## The report -/

theorem perm_all_check (h : Hierarchy) (s : Settings) : (h.check s).all.Perm (h.findings s) := by
  have hwarning :
      (fun f : Finding => f.severity == .warning) = fun f => !(f.severity == .error) := by
    funext f
    cases f.severity <;> rfl
  rw [Report.all, check, Report.ofFindings, hwarning]
  exact List.filter_append_perm _ _

/-- Whether a report has errors shows without positions. -/
theorem isAccepted_iff (h : Hierarchy) (s : Settings) : (h.check s).isAccepted = true ↔
    ∀ f ∈ (h.check s).all.map Finding.unplaced, f.severity ≠ .error := by
  rw [Report.isAccepted, List.isEmpty_iff, List.eq_nil_iff_forall_not_mem, List.forall_mem_map]
  refine ⟨fun hnone f hf herror => ?_, fun hnone f hf => ?_⟩
  · exact hnone f (mem_errors_check_iff.mpr ⟨mem_all_check_iff.mp hf, herror⟩)
  · obtain ⟨hfinding, herror⟩ := mem_errors_check_iff.mp hf
    exact hnone f (mem_all_check_iff.mpr hfinding) herror

/-- **Sibling order has no bearing on the verdict.**  Trees that differ in it are both accepted or
both refused, and the findings on them are the same, positions and order apart. -/
theorem check_rearranged (h : l.Rearranged l') (primary : Crs) (s : Settings) :
    ((ofLayer l primary).check s).isAccepted = ((ofLayer l' primary).check s).isAccepted ∧
      (((ofLayer l primary).check s).all.map Finding.unplaced).Perm
        (((ofLayer l' primary).check s).all.map Finding.unplaced) := by
  have houtlooks := Outlook.perm_report (s := s) (Layer.perm_outlooks l l' [] h)
  have hfindings := ((perm_unplaced_findings l primary s).trans houtlooks).trans
    (perm_unplaced_findings l' primary s).symm
  have hall := (((perm_all_check (ofLayer l primary) s).map Finding.unplaced).trans hfindings).trans
    ((perm_all_check (ofLayer l' primary) s).map Finding.unplaced).symm
  refine ⟨?_, hall⟩
  rw [Bool.eq_iff_iff, isAccepted_iff, isAccepted_iff]
  exact forall_congr' fun f => imp_congr_left hall.mem_iff

/-- Two layers of one name, of which the second is blamed. -/
def namesakes (swapped : Bool) : Layer :=
  let shown := Samples.plainData "D"
  let hidden := (Samples.plainData "D").hidden
  .node (Layer.described "top").attributes (if swapped then [hidden, shown] else [shown, hidden])

/-- With two layers of one name, sibling order decides which one is blamed, and nothing else. -/
theorem check_rearranged_namesakes :
    (namesakes false).Rearranged (namesakes true) ∧
      (ofLayer (namesakes false) .standard).check {}
        ≠ (ofLayer (namesakes true) .standard).check {} ∧
      (((ofLayer (namesakes false) .standard).check {}).all.map Finding.unplaced).Perm
        (((ofLayer (namesakes true) .standard).check {}).all.map Finding.unplaced) := by
  have h : (namesakes false).Rearranged (namesakes true) :=
    .node _ (.cons (.refl _) (.cons (.refl _) .nil)) (.swap _ _ _)
  exact ⟨h, by decide +kernel, (check_rearranged h .standard {}).2⟩

end Hierarchy

end MapLayers
