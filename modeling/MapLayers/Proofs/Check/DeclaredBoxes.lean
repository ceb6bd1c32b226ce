import MapLayers.Check

/-!
# The check of the declared boxes

The check goes through the boxes of a layer with a set of the systems that it has met.  What it says
about a box depends on whether the system of the box is in that set, and otherwise on the inherited
box for the system alone (`boxFindings`).  So the check of a list is made up from what is said box
by box (`checkDeclaredBoxes_cons`, `checkDeclaredBoxes_append`), and the order in which the systems
were met plays no part (`checkDeclaredBoxes_congr`).

A box can be reported in two ways, and never in both: it is a second one for its system
(`duplicateBox`), or it is the first one and equals the inherited box (`redundantBox`).

* Every finding of the check is one of these two (`cases_of_mem_checkDeclaredBoxes`).
* A box that is reported as redundant is the first one for its system (`redundantBox_of_mem`), and
  whether it is follows from that box alone (`filter_checkDeclaredBoxes_redundant`).
* When no second box for a system is reported, the first one is the only one (`exists_onlyBox`).
-/

set_option autoImplicit false

namespace MapLayers

/-- A second box for a system. -/
def duplicateBox (c : Crs) : Finding :=
  { Finding.of .duplicateBoundingBox with field := some .boundingBoxes, detail := some c.id }

/-- A first box for a system that equals the inherited one. -/
def redundantBox (c : Crs) (inherited : EffectiveBox) : Finding :=
  { Finding.of .redundantBoundingBox with
    field := some .boundingBoxes, related := inherited.origin.ancestor?, detail := some c.id }

/-- What is said about a box, when some systems have been met. -/
def boxFindings (inherited : Crs → Option EffectiveBox) (seen : List Crs) (b : DeclaredBox) :
    List Finding :=
  if b.crs ∈ seen then [duplicateBox b.crs]
  else ((inherited b.crs).filter (·.rect == b.rect)).toList.map (redundantBox b.crs)

variable {inherited inherited' : Crs → Option EffectiveBox} {seen : List Crs}
  {bs cs : List DeclaredBox} {b : DeclaredBox} {c : Crs} {f : Finding}

/-- The check of a list, with what it says about the first box apart. -/
theorem checkDeclaredBoxes_eq_append : checkDeclaredBoxes inherited seen (b :: bs)
    = boxFindings inherited seen b
        ++ checkDeclaredBoxes inherited (if b.crs ∈ seen then seen else b.crs :: seen) bs := by
  rw [checkDeclaredBoxes, boxFindings]
  by_cases hseen : b.crs ∈ seen
  · simp only [if_pos hseen]
    rfl
  · simp only [if_neg hseen]
    cases inherited b.crs with
    | none => rfl
    | some e =>
      by_cases he : (e.rect == b.rect) = true
      · simp only [he, Option.filter, if_true]
        rfl
      · simp only [he, Option.filter]
        rfl

/-- **Only which systems have been met matters**, and what is inherited in the systems of the
boxes. -/
theorem checkDeclaredBoxes_congr {seen' : List Crs}
    (h : ∀ b ∈ bs, (b.crs ∈ seen' ↔ b.crs ∈ seen) ∧ inherited' b.crs = inherited b.crs) :
    checkDeclaredBoxes inherited' seen' bs = checkDeclaredBoxes inherited seen bs := by
  induction bs generalizing seen seen' with
  | nil => rfl
  | cons b bs ih =>
    rw [List.forall_mem_cons] at h
    obtain ⟨⟨hseen, hinherited⟩, htail⟩ := h
    have hb : boxFindings inherited' seen' b = boxFindings inherited seen b := by
      simp only [boxFindings, hseen, hinherited]
    rw [checkDeclaredBoxes_eq_append, checkDeclaredBoxes_eq_append, hb]
    congr 1
    refine ih fun d hd => ⟨?_, (htail d hd).2⟩
    by_cases hmem : b.crs ∈ seen
    · simp only [if_pos hmem, if_pos (hseen.mpr hmem), (htail d hd).1]
    · simp only [if_neg hmem, if_neg (mt hseen.mp hmem), List.mem_cons, (htail d hd).1]

theorem checkDeclaredBoxes_cons : checkDeclaredBoxes inherited seen (b :: bs)
    = boxFindings inherited seen b ++ checkDeclaredBoxes inherited (b.crs :: seen) bs := by
  rw [checkDeclaredBoxes_eq_append]
  congr 1
  refine checkDeclaredBoxes_congr fun d _ => ⟨?_, rfl⟩
  split
  · rename_i hseen
    rw [List.mem_cons]
    exact ⟨Or.inr, fun h => h.elim (fun heq => heq ▸ hseen) id⟩
  · exact Iff.rfl

/-- **The check of two lists**, of which the second comes after the systems of the first. -/
theorem checkDeclaredBoxes_append : checkDeclaredBoxes inherited seen (bs ++ cs)
    = checkDeclaredBoxes inherited seen bs
        ++ checkDeclaredBoxes inherited (bs.map DeclaredBox.crs ++ seen) cs := by
  induction bs generalizing seen with
  | nil => rfl
  | cons b bs ih =>
    rw [List.cons_append, checkDeclaredBoxes_cons, checkDeclaredBoxes_cons, ih, List.append_assoc]
    congr 2
    refine checkDeclaredBoxes_congr fun d _ => ⟨?_, rfl⟩
    simp only [List.map_cons, List.cons_append, List.mem_append, List.mem_cons]
    exact or_left_comm

/-! ## Duplicates and redundant boxes

What the check says is taken apart again: from a finding to the box that it is about, and from the
absence of findings to the list of boxes. -/

/-- What the check of declared boxes says is about one of the boxes: that it is a second one for its
system, or that it equals the inherited one. -/
theorem cases_of_mem_checkDeclaredBoxes (h : f ∈ checkDeclaredBoxes inherited seen bs) :
    ∃ b ∈ bs, f = duplicateBox b.crs ∨ ∃ e, inherited b.crs = some e ∧
      (e.rect == b.rect) = true ∧ f = redundantBox b.crs e := by
  induction bs generalizing seen with
  | nil => cases h
  | cons b bs ih =>
    rw [checkDeclaredBoxes_cons, List.mem_append] at h
    rcases h with h | h
    · refine ⟨b, List.mem_cons_self, ?_⟩
      rw [boxFindings] at h
      split at h
      · exact Or.inl (List.mem_singleton.mp h)
      · obtain ⟨e, he, rfl⟩ := List.mem_map.mp h
        rw [Option.mem_toList, Option.filter_eq_some_iff] at he
        exact Or.inr ⟨e, he.1, he.2, rfl⟩
    · obtain ⟨d, hd, hcases⟩ := ih h
      exact ⟨d, List.mem_cons_of_mem _ hd, hcases⟩

/-- The check of declared boxes is about the two rules for them. -/
theorem rule_of_mem_checkDeclaredBoxes (h : f ∈ checkDeclaredBoxes inherited seen bs) :
    f.rule = .duplicateBoundingBox ∨ f.rule = .redundantBoundingBox := by
  obtain ⟨b, -, rfl | ⟨e, -, -, rfl⟩⟩ := cases_of_mem_checkDeclaredBoxes h
  · exact Or.inl rfl
  · exact Or.inr rfl

/-- A box for a system that has been met is reported. -/
theorem duplicateBox_mem (hb : b ∈ bs) (hseen : b.crs ∈ seen) :
    duplicateBox b.crs ∈ checkDeclaredBoxes inherited seen bs := by
  induction bs generalizing seen with
  | nil => cases hb
  | cons d bs ih =>
    rw [checkDeclaredBoxes_cons, List.mem_append]
    rcases List.mem_cons.mp hb with rfl | hb
    · left
      rw [boxFindings, if_pos hseen]
      exact List.mem_singleton_self _
    · exact Or.inr (ih hb (List.mem_cons_of_mem _ hseen))

/-- What the check says about redundant boxes for a system follows from the first one. -/
theorem filter_checkDeclaredBoxes_redundant : ∀ (bs : List DeclaredBox) (seen : List Crs),
    (checkDeclaredBoxes inherited seen bs).filter
        (fun f => f.rule == .redundantBoundingBox && f.detail == some c.id)
      = if c ∈ seen then [] else
          ((bs.find? (·.crs == c)).bind fun b =>
            (inherited c).filter (·.rect == b.rect)).toList.map (redundantBox c)
  | [], seen => by
    split <;> rfl
  | b :: bs, seen => by
    rw [checkDeclaredBoxes_cons, List.filter_append, filter_checkDeclaredBoxes_redundant bs,
      boxFindings]
    by_cases hb : b.crs = c
    · -- this is a box for the system, and all later ones are for a system that has been met
      subst hb
      have hfirst : (b :: bs).find? (·.crs == b.crs) = some b := by simp
      rw [if_pos List.mem_cons_self, List.append_nil, hfirst, Option.bind_some]
      split
      · rfl
      · refine List.filter_eq_self.mpr (List.forall_mem_map.mpr fun _ _ => ?_)
        exact Bool.and_eq_true_iff.mpr ⟨rfl, beq_self_eq_true _⟩
    · have hid : (some b.crs.id == some c.id) = false :=
        beq_false_of_ne fun h => hb (congrArg Crs.mk (Option.some.inj h))
      have hother : ((if b.crs ∈ seen then [duplicateBox b.crs] else
          ((inherited b.crs).filter (·.rect == b.rect)).toList.map (redundantBox b.crs)).filter
            fun f => f.rule == .redundantBoundingBox && f.detail == some c.id) = [] := by
        refine List.filter_eq_nil_iff.mpr fun f hf => ?_
        have hdetail : f.detail = some b.crs.id := by
          split at hf
          · rw [List.mem_singleton.mp hf]
            rfl
          · obtain ⟨e, -, rfl⟩ := List.mem_map.mp hf
            rfl
        rw [hdetail, hid, Bool.and_false]
        exact Bool.false_ne_true
      have hmem : c ∈ b.crs :: seen ↔ c ∈ seen := by
        rw [List.mem_cons, or_iff_right (Ne.symm hb)]
      rw [hother, List.nil_append, List.find?_cons_of_neg (by simpa using hb)]
      simp only [hmem]

/-- **A box that is reported as redundant is the first one for its system**, and equals the
inherited one. -/
theorem redundantBox_of_mem (h : f ∈ checkDeclaredBoxes inherited seen bs)
    (hrule : f.rule = .redundantBoundingBox) (hdetail : f.detail = some c.id) :
    c ∉ seen ∧ ∃ b e, bs.find? (·.crs == c) = some b ∧ inherited c = some e ∧
      (e.rect == b.rect) = true ∧ f = redundantBox c e := by
  have hmem : f ∈ (checkDeclaredBoxes inherited seen bs).filter
      (fun f => f.rule == .redundantBoundingBox && f.detail == some c.id) :=
    List.mem_filter.mpr ⟨h, by simp [hrule, hdetail]⟩
  rw [filter_checkDeclaredBoxes_redundant] at hmem
  split at hmem
  · cases hmem
  · rename_i hseen
    obtain ⟨e, he, rfl⟩ := List.mem_map.mp hmem
    obtain ⟨b, hb, hfilter⟩ := Option.bind_eq_some_iff.mp (Option.mem_toList.mp he)
    obtain ⟨hinherited, heq⟩ := Option.filter_eq_some_iff.mp hfilter
    exact ⟨hseen, b, e, hb, hinherited, heq, rfl⟩

/-- A list has just one box for a system, with others before and after it. -/
structure OnlyBox (c : Crs) (before : List DeclaredBox) (b : DeclaredBox)
    (after bs : List DeclaredBox) : Prop where
  split : bs = before ++ b :: after
  crs : b.crs = c
  before : ∀ d ∈ before, d.crs ≠ c
  after : ∀ d ∈ after, d.crs ≠ c

/-- When no second box for a system is reported, the first one is the only one. -/
theorem exists_onlyBox (hb : bs.find? (·.crs == c) = some b)
    (h : duplicateBox c ∉ checkDeclaredBoxes inherited seen bs) :
    ∃ before after, OnlyBox c before b after bs := by
  obtain ⟨hcrs, before, after, rfl, hbefore⟩ := List.find?_eq_some_iff_append.mp hb
  rw [beq_iff_eq] at hcrs
  subst hcrs
  refine ⟨before, after, rfl, rfl, fun d hd => by simpa using hbefore d hd, ?_⟩
  intro d hd heq
  refine h ?_
  rw [checkDeclaredBoxes_append, checkDeclaredBoxes_cons, ← heq]
  exact List.mem_append_right _ (List.mem_append_right _
    (duplicateBox_mem hd (by rw [heq]; exact List.mem_cons_self)))

end MapLayers
