import Mathlib.Data.List.Forall2
import MapLayers.Proofs.Boxes.Removal
import MapLayers.Proofs.Check.DeclaredBoxes
import MapLayers.Proofs.Check.Groups
import MapLayers.Proofs.Views.Shared
import MapLayers.Samples

/-!
# A redundant box can be taken away

A layer is warned about a box that equals the one it would inherit.  The warning can be acted on:
when the box is taken away, all boxes stay as good as they were, the errors stay the same, and of
the warnings just that one is gone (`Hierarchy.spares_withoutBox`).  Other warnings about redundant
boxes in that system may name another ancestor, since the layer does not pass on a box of its own
any more.

That is what `Finding.Resembles` allows for: a finding resembles another when the two are the same
but for the ancestor in such a warning.  `LessOne` says of two lists that the second resembles the
first without one of its findings.

The two walks are compared step by step.  At every layer but the one that loses its box, the
findings resemble each other one by one (`Hierarchy.resembles_layerFindings`); at that layer, the
list is one shorter (`Hierarchy.lessOne_layerFindings`).  A walk comes to the layer once, so all
findings together are one fewer.

The layer may not declare a second box for the system, which would then be the first one and be
inherited in its place.  In a report without errors no layer does
(`Hierarchy.exists_onlyBox_of_no_error`).
-/

set_option autoImplicit false

namespace MapLayers

/-- The second finding is the first, but that a warning about a redundant box in the system may name
another ancestor. -/
def Finding.Resembles (c : Crs) (f g : Finding) : Prop :=
  g = f ∨ f.severity = .warning ∧ f.rule = .redundantBoundingBox ∧ f.detail = some c.id ∧
    g = { f with related := g.related }

/-- The second list resembles the first, from which one finding is left out. -/
def LessOne (c : Crs) (w : Finding) (fs gs : List Finding) : Prop :=
  ∃ before after, fs = before ++ w :: after ∧
    List.Forall₂ (Finding.Resembles c) (before ++ after) gs

/-- The second hierarchy is the first without one box that a layer declares, and does as well: its
boxes are as good, and its report is the same but for one warning. -/
structure Hierarchy.Spares (h h' : Hierarchy) (s : Settings) (k : Nat) (c : Crs) (w : Finding) :
    Prop where
  /-- The links are the same. -/
  links : h.SameLinks h'.toArena
  /-- The layer declares one box less. -/
  removed : ∃ before b after, (h.attributes k).boxes = before ++ b :: after ∧ b.crs = c ∧
    h'.attributes k = { h.attributes k with boxes := before ++ after }
  /-- The other layers are described as before. -/
  others : ∀ j, j ≠ k → h'.attributes j = h.attributes j
  /-- Every layer has a box where it had one, with an equal rectangle, and declared somewhere if it
  was. -/
  boxes : ∀ j d, AlikeBoxes (h.effectiveBox j d) (h'.effectiveBox j d)
  /-- The same systems are referenced. -/
  referenced : h'.referenced = h.referenced
  /-- The errors are the same. -/
  errors : (h'.check s).errors = (h.check s).errors
  /-- Just the one warning is gone. -/
  warnings : LessOne c w (h.check s).warnings (h'.check s).warnings

/-! ## Lists of findings that resemble each other

Errors that resemble each other are equal, since only warnings may differ, and of the lists of a
report the second loses one finding. -/

namespace Finding.Resembles

variable {c : Crs} {f g : Finding} {fs gs : List Finding}

theorem refl (f : Finding) : f.Resembles c f := Or.inl rfl

theorem forall₂_refl (fs : List Finding) : List.Forall₂ (Resembles c) fs fs :=
  List.forall₂_same.mpr fun f _ => refl f

theorem severity_eq (h : f.Resembles c g) : g.severity = f.severity := by
  rcases h with rfl | ⟨-, -, -, h⟩
  · rfl
  · rw [h]

theorem located (h : f.Resembles c g) (k : Nat) (name : Option String) :
    (f.located k name).Resembles c (g.located k name) := by
  rcases h with rfl | ⟨hseverity, hrule, hdetail, h⟩
  · exact refl _
  · exact Or.inr ⟨hseverity, hrule, hdetail, by rw [h]; rfl⟩

theorem map_located (h : List.Forall₂ (Resembles c) fs gs) (k : Nat) (name : Option String) :
    List.Forall₂ (Resembles c) (fs.map (·.located k name)) (gs.map (·.located k name)) :=
  List.rel_map (fun _ _ hfg => hfg.located k name) h

/-- Findings of one severity resemble those of the same. -/
theorem filter_severity (h : List.Forall₂ (Resembles c) fs gs) (s : Severity) :
    List.Forall₂ (Resembles c) (fs.filter (·.severity == s)) (gs.filter (·.severity == s)) :=
  List.rel_filter (fun f g hfg => by
    show (f.severity == s) = true ↔ (g.severity == s) = true
    rw [hfg.severity_eq]) h

/-- Errors that resemble each other are the same. -/
theorem eq_of_errors (h : List.Forall₂ (Resembles c) fs gs) (he : ∀ f ∈ fs, f.severity = .error) :
    gs = fs := by
  induction h with
  | nil => rfl
  | @cons f g fs gs hfg _ ih =>
    rw [List.forall_mem_cons] at he
    rw [ih he.2]
    rcases hfg with rfl | ⟨hwarning, -⟩
    · rfl
    · rw [he.1] at hwarning
      cases hwarning

end Finding.Resembles

namespace LessOne

open Finding.Resembles

variable {c : Crs} {w : Finding} {fs gs xs ys : List Finding}

theorem append_left (hx : List.Forall₂ (Finding.Resembles c) xs ys) (h : LessOne c w fs gs) :
    LessOne c w (xs ++ fs) (ys ++ gs) := by
  obtain ⟨before, after, rfl, hrest⟩ := h
  refine ⟨xs ++ before, after, by rw [List.append_assoc], ?_⟩
  rw [List.append_assoc]
  exact List.rel_append hx hrest

theorem append_right (h : LessOne c w fs gs) (hx : List.Forall₂ (Finding.Resembles c) xs ys) :
    LessOne c w (fs ++ xs) (gs ++ ys) := by
  obtain ⟨before, after, rfl, hrest⟩ := h
  refine ⟨before, after ++ xs, by rw [List.append_assoc, List.cons_append], ?_⟩
  rw [← List.append_assoc]
  exact List.rel_append hrest hx

theorem map_located (h : LessOne c w fs gs) (k : Nat) (name : Option String) :
    LessOne c (w.located k name) (fs.map (·.located k name)) (gs.map (·.located k name)) := by
  obtain ⟨before, after, rfl, hrest⟩ := h
  refine ⟨before.map (·.located k name), after.map (·.located k name), ?_, ?_⟩
  · rw [List.map_append, List.map_cons]
  · rw [← List.map_append]
    exact Finding.Resembles.map_located hrest k name

/-- A warning that is gone makes no difference to the errors. -/
theorem errors_eq (h : LessOne c w fs gs) (hw : w.severity = .warning) :
    (Report.ofFindings gs).errors = (Report.ofFindings fs).errors := by
  obtain ⟨before, after, rfl, hrest⟩ := h
  have hfilter := filter_severity hrest .error
  have herrors := eq_of_errors hfilter fun f hf => by simpa using (List.mem_filter.mp hf).2
  rw [Report.ofFindings, Report.ofFindings]
  simp only [herrors]
  simp [hw]

theorem warnings (h : LessOne c w fs gs) (hw : w.severity = .warning) :
    LessOne c w (Report.ofFindings fs).warnings (Report.ofFindings gs).warnings := by
  obtain ⟨before, after, rfl, hrest⟩ := h
  refine ⟨before.filter (·.severity == .warning), after.filter (·.severity == .warning), ?_, ?_⟩
  · simp [Report.ofFindings, hw]
  · rw [← List.filter_append]
    exact filter_severity hrest .warning

end LessOne

/-! ## The check of the declared boxes

At the layer in question the boxes before and after the one that is taken away are checked as
before, and the box itself contributed one warning.  At layers below, what is inherited is another
box, as good. -/

section

variable {inherited inherited' : Crs → Option EffectiveBox} {seen : List Crs}
  {bs before after : List DeclaredBox} {b : DeclaredBox} {c : Crs} {e : EffectiveBox}

/-- What is said about a box resembles what is said when another box, as good, is inherited. -/
theorem resembles_boxFindings (hother : ∀ d, d ≠ c → inherited' d = inherited d)
    (hc : AlikeBoxes (inherited c) (inherited' c)) :
    List.Forall₂ (Finding.Resembles c) (boxFindings inherited seen b)
      (boxFindings inherited' seen b) := by
  rw [boxFindings, boxFindings]
  split
  · exact Finding.Resembles.forall₂_refl _
  · by_cases hb : b.crs = c
    · subst hb
      generalize inherited b.crs = o at hc
      generalize inherited' b.crs = o' at hc
      cases hc with
      | none => exact .nil
      | @some e e' h =>
        have hrect : (e'.rect == b.rect) = (e.rect == b.rect) := BEq.congr_left h.rect
        by_cases heq : (e.rect == b.rect) = true
        · simp only [Option.filter, hrect, heq, if_true]
          exact .cons (Or.inr ⟨rfl, rfl, rfl, rfl⟩) .nil
        · simp only [Option.filter, hrect, heq]
          exact .nil
    · rw [hother _ hb]
      exact Finding.Resembles.forall₂_refl _

theorem resembles_checkDeclaredBoxes (hother : ∀ d, d ≠ c → inherited' d = inherited d)
    (hc : AlikeBoxes (inherited c) (inherited' c)) :
    List.Forall₂ (Finding.Resembles c) (checkDeclaredBoxes inherited seen bs)
      (checkDeclaredBoxes inherited' seen bs) := by
  induction bs generalizing seen with
  | nil => exact .nil
  | cons b bs ih =>
    rw [checkDeclaredBoxes_cons, checkDeclaredBoxes_cons]
    exact List.rel_append (resembles_boxFindings hother hc) ih

/-- **Without a box that equals the inherited one, there is one finding less.** -/
theorem lessOne_checkDeclaredBoxes (hother : ∀ d, d ≠ c → inherited' d = inherited d)
    (hi : inherited c = some e) (he : (e.rect == b.rect) = true)
    (honly : OnlyBox c before b after bs) :
    LessOne c (redundantBox c e) (checkDeclaredBoxes inherited [] bs)
      (checkDeclaredBoxes inherited' [] (before ++ after)) := by
  obtain ⟨rfl, rfl, hbefore, hafter⟩ := honly
  have hfresh : b.crs ∉ before.map DeclaredBox.crs ++ [] := by
    rw [List.append_nil, List.mem_map]
    rintro ⟨d, hd, heq⟩
    exact hbefore d hd heq
  have hone : boxFindings inherited (before.map DeclaredBox.crs ++ []) b
      = [redundantBox b.crs e] := by
    rw [boxFindings, if_neg hfresh, hi]
    simp only [Option.filter, he, if_true]
    rfl
  have hhead : checkDeclaredBoxes inherited' [] before = checkDeclaredBoxes inherited [] before :=
    checkDeclaredBoxes_congr fun d hd => ⟨Iff.rfl, hother _ (hbefore d hd)⟩
  have htail : checkDeclaredBoxes inherited' (before.map DeclaredBox.crs ++ []) after
      = checkDeclaredBoxes inherited (b.crs :: (before.map DeclaredBox.crs ++ [])) after :=
    checkDeclaredBoxes_congr fun d hd =>
      ⟨by simp [hafter d hd], hother _ (hafter d hd)⟩
  rw [checkDeclaredBoxes_append, checkDeclaredBoxes_append, checkDeclaredBoxes_cons, hone, hhead,
    htail]
  exact ⟨_, _, rfl, Finding.Resembles.forall₂_refl _⟩

end

theorem checkPrimaryBox_congr {s : Settings} {o o' : Option EffectiveBox}
    (h : o'.map EffectiveBox.isExplicit = o.map EffectiveBox.isExplicit) :
    checkPrimaryBox s o' = checkPrimaryBox s o := by
  rw [checkPrimaryBox, checkPrimaryBox, h]

/-! ## One layer

The findings of a layer in three parts: what comes before its declared boxes, what is said about
these, and what comes after.  The first and the last are the same in both hierarchies. -/

namespace Hierarchy

/-- What is said about a layer before its boxes are looked at. -/
def findingsBeforeBoxes (h : Hierarchy) (s : Settings) (names : Holders) (k : Nat) : List Finding :=
  checkName names (h.attributes k) (h.role k) ++ checkVisibility (h.attributes k) (h.role k)
    ++ checkStyles s (h.attributes k) (h.role k) ++ checkSource s (h.attributes k) (h.role k)
    ++ checkScales (h.attributes k)

/-- What is said about a layer after the boxes that it declares have been looked at. -/
def findingsAfterBoxes (h : Hierarchy) (s : Settings) (shared : List (Nat × List String))
    (k : Nat) : List Finding :=
  checkPrimaryBox s (h.effectiveBox k s.primary)
    ++ checkSharedStyles (h.attributes k) (h.parent k) ((shared.lookup k).getD [])

theorem layerFindings_eq (h : Hierarchy) (s : Settings) (shared : List (Nat × List String))
    (names : Holders) (k : Nat) : h.layerFindings s shared names k
      = (h.findingsBeforeBoxes s names k
          ++ (checkDeclaredBoxes (h.inheritedBox k) [] (h.attributes k).boxes
            ++ h.findingsAfterBoxes s shared k)).map (·.located k (h.attributes k).name) := by
  rw [layerFindings, findingsBeforeBoxes, findingsAfterBoxes]
  simp only [List.append_assoc]

variable {l : Layer} {primary c : Crs} {s : Settings} {k j : Nat} {b : DeclaredBox}
  {e : EffectiveBox} {before after : List DeclaredBox} {shared : List (Nat × List String)}
  {names : Holders}

/-- Apart from boxes, a layer is described as before. -/
theorem attributes_withoutBox_eq (j : Nat) : (ofLayer (l.withoutBox k c) primary).attributes j
    = { (ofLayer l primary).attributes j with
        boxes := ((ofLayer (l.withoutBox k c) primary).attributes j).boxes } := by
  rw [attributes_withoutBox]
  split <;> rfl

theorem boxes_withoutBox {a : Attributes} (h : OnlyBox c before b after a.boxes) :
    (a.withoutBox c).boxes = before ++ after := by
  rw [Attributes.withoutBox, h.split, List.filter_append,
    List.filter_cons_of_neg (by simp [h.crs]),
    List.filter_eq_self.mpr fun d hd => by simpa using h.before d hd,
    List.filter_eq_self.mpr fun d hd => by simpa using h.after d hd]

theorem meet_withoutBox : names.meet j ((ofLayer (l.withoutBox k c) primary).attributes j)
    = names.meet j ((ofLayer l primary).attributes j) := by
  rw [attributes_withoutBox_eq]
  rfl

theorem all_withoutBox : (ofLayer (l.withoutBox k c) primary).all = (ofLayer l primary).all :=
  sameLinks_withoutBox.all_eq

/-- The same styles are shared with parents. -/
theorem forbiddenShared_withoutBox : (ofLayer (l.withoutBox k c) primary).forbiddenShared s
    = (ofLayer l primary).forbiddenShared s := by
  have hstyles : ∀ j, ((ofLayer (l.withoutBox k c) primary).attributes j).styles
      = ((ofLayer l primary).attributes j).styles := by
    intro j
    rw [attributes_withoutBox_eq]
  have hcollisions : (ofLayer (l.withoutBox k c) primary).styleCollisions
      = (ofLayer l primary).styleCollisions := sameLinks_withoutBox.styleCollisions_eq hstyles
  rw [forbiddenShared, forbiddenShared, hcollisions]

theorem checkAnyVisible_withoutBox : (ofLayer (l.withoutBox k c) primary).checkAnyVisible
    = (ofLayer l primary).checkAnyVisible := by
  have hvisible : (fun j => ((ofLayer (l.withoutBox k c) primary).attributes j).isVisible)
      = fun j => ((ofLayer l primary).attributes j).isVisible := by
    funext j
    rw [attributes_withoutBox_eq]
    rfl
  rw [checkAnyVisible, checkAnyVisible, all_withoutBox, hvisible]

theorem findingsBeforeBoxes_withoutBox :
    (ofLayer (l.withoutBox k c) primary).findingsBeforeBoxes s names j
      = (ofLayer l primary).findingsBeforeBoxes s names j := by
  rw [findingsBeforeBoxes, attributes_withoutBox_eq, role_withoutBox]
  rfl

section

variable (h : (ofLayer l primary).Repeats k c b e)

include h

theorem findingsAfterBoxes_withoutBox :
    (ofLayer (l.withoutBox k c) primary).findingsAfterBoxes s shared j
      = (ofLayer l primary).findingsAfterBoxes s shared j := by
  rw [findingsAfterBoxes, checkPrimaryBox_congr (alike_withoutBox h j s.primary).explicit,
    attributes_withoutBox_eq, parent_withoutBox]
  rfl

/-- The findings at a layer, with those about declared boxes still to be compared. -/
theorem layerFindings_withoutBox :
    (ofLayer (l.withoutBox k c) primary).layerFindings s shared names j
      = ((ofLayer l primary).findingsBeforeBoxes s names j
          ++ (checkDeclaredBoxes ((ofLayer (l.withoutBox k c) primary).inheritedBox j) []
              ((ofLayer (l.withoutBox k c) primary).attributes j).boxes
            ++ (ofLayer l primary).findingsAfterBoxes s shared j)).map
          (·.located j ((ofLayer l primary).attributes j).name) := by
  rw [layerFindings_eq, findingsBeforeBoxes_withoutBox, findingsAfterBoxes_withoutBox h]
  congr 2
  funext f
  rw [attributes_withoutBox_eq]

theorem resembles_layerFindings (hj : j ≠ k) :
    List.Forall₂ (Finding.Resembles c) ((ofLayer l primary).layerFindings s shared names j)
      ((ofLayer (l.withoutBox k c) primary).layerFindings s shared names j) := by
  rw [layerFindings_withoutBox h, layerFindings_eq, attributes_withoutBox, if_neg hj]
  refine Finding.Resembles.map_located ?_ _ _
  refine List.rel_append (Finding.Resembles.forall₂_refl _)
    (List.rel_append ?_ (Finding.Resembles.forall₂_refl _))
  exact resembles_checkDeclaredBoxes (fun d hd => inheritedBox_withoutBox_of_ne hd j)
    (alike_inheritedBox_withoutBox h j c)

variable (honly : OnlyBox c before b after ((ofLayer l primary).attributes k).boxes)

include honly

theorem lessOne_layerFindings :
    LessOne c ((redundantBox c e).located k ((ofLayer l primary).attributes k).name)
      ((ofLayer l primary).layerFindings s shared names k)
      ((ofLayer (l.withoutBox k c) primary).layerFindings s shared names k) := by
  have hrest : ((ofLayer (l.withoutBox k c) primary).attributes k).boxes = before ++ after := by
    rw [attributes_withoutBox, if_pos rfl]
    exact boxes_withoutBox honly
  rw [layerFindings_withoutBox h, layerFindings_eq, hrest]
  refine LessOne.map_located ?_ _ _
  refine LessOne.append_left (Finding.Resembles.forall₂_refl _)
    (LessOne.append_right ?_ (Finding.Resembles.forall₂_refl _))
  exact lessOne_checkDeclaredBoxes (fun d hd => inheritedBox_withoutBox_of_ne hd k) h.inherited
    h.rect honly

/-! ## The walk -/

omit honly in
/-- A walk that does not come to the layer. -/
theorem resembles_walkFindings : ∀ {ks : List Nat} {names : Holders}, k ∉ ks →
    List.Forall₂ (Finding.Resembles c) ((ofLayer l primary).walkFindings s shared names ks)
      ((ofLayer (l.withoutBox k c) primary).walkFindings s shared names ks)
  | [], _, _ => .nil
  | j :: ks, names, hk => by
    rw [List.mem_cons, not_or] at hk
    rw [walkFindings, walkFindings, meet_withoutBox]
    exact List.rel_append (resembles_layerFindings h (Ne.symm hk.1))
      (resembles_walkFindings hk.2)

/-- A walk that comes to the layer once. -/
theorem lessOne_walkFindings : ∀ {ks : List Nat} {names : Holders}, ks.Nodup → k ∈ ks →
    LessOne c ((redundantBox c e).located k ((ofLayer l primary).attributes k).name)
      ((ofLayer l primary).walkFindings s shared names ks)
      ((ofLayer (l.withoutBox k c) primary).walkFindings s shared names ks)
  | j :: ks, names, hnd, hk => by
    rw [List.nodup_cons] at hnd
    rw [walkFindings, walkFindings, meet_withoutBox]
    rcases List.mem_cons.mp hk with rfl | hk
    · exact LessOne.append_right (lessOne_layerFindings h honly)
        (resembles_walkFindings h hnd.1)
    · have hne : j ≠ k := fun h => hnd.1 (h ▸ hk)
      exact LessOne.append_left (resembles_layerFindings h hne)
        (lessOne_walkFindings hnd.2 hk)

theorem lessOne_findings (hk : k < (ofLayer l primary).size) :
    LessOne c ((redundantBox c e).located k ((ofLayer l primary).attributes k).name)
      ((ofLayer l primary).findings s) ((ofLayer (l.withoutBox k c) primary).findings s) := by
  have hrange : (ofLayer l primary).all = List.range l.count := Arena.all_eq_range l
  have hsize : (ofLayer l primary).size = l.count := Arena.size_ofLayer l
  rw [findings, findings, all_withoutBox, forbiddenShared_withoutBox, checkAnyVisible_withoutBox]
  refine LessOne.append_right (lessOne_walkFindings h honly ?_ ?_)
    (Finding.Resembles.forall₂_refl _)
  · rw [hrange]
    exact List.nodup_range
  · rw [hrange, List.mem_range, ← hsize]
    exact hk

end

/-! ## Acting on the warning

The layer is one that was warned, so it declares a box that equals the inherited one.  That it
declares no other box in the system follows when the report has no errors, and is otherwise asked
for. -/

/-- A layer without an error about a second box declares just one box in the system. -/
theorem exists_onlyBox_of_no_error (hk : k < (ofLayer l primary).size)
    (hb : ((ofLayer l primary).attributes k).box? c = some b)
    (hnone : ∀ f ∈ ((ofLayer l primary).check s).errors, f.layer = some k →
      f.rule = .duplicateBoundingBox → f.detail ≠ some c.id) :
    ∃ before after, OnlyBox c before b after ((ofLayer l primary).attributes k).boxes := by
  have hfresh : duplicateBox c ∉ checkDeclaredBoxes ((ofLayer l primary).inheritedBox k) []
      ((ofLayer l primary).attributes k).boxes := by
    intro hmem
    have hfound : (duplicateBox c).located k ((ofLayer l primary).attributes k).name
        ∈ (ofLayer l primary).findings s := by
      refine List.mem_append_left _ (mem_walkFindings (k := k) ?_ ?_)
      · intro names
        exact (mem_layerFindings_iff_of_declaredBox (Or.inl rfl)).mpr ⟨_, hmem, rfl⟩
      · rwa [show (ofLayer l primary).all = _ from Arena.all_eq_range l, List.mem_range,
          ← Arena.size_ofLayer]
    exact hnone _ (List.mem_filter.mpr ⟨hfound, rfl⟩) rfl rfl rfl
  exact exists_onlyBox hb hfresh

/-- **A box that is reported as redundant can be taken away**, if the layer declares no other box in
its system. -/
theorem spares_withoutBox {w : Finding} (hw : w ∈ ((ofLayer l primary).check s).warnings)
    (hlayer : w.layer = some k) (hrule : w.rule = .redundantBoundingBox)
    (hdetail : w.detail = some c.id)
    (hnone : ∀ f ∈ ((ofLayer l primary).check s).errors, f.layer = some k →
      f.rule = .duplicateBoundingBox → f.detail ≠ some c.id) :
    (ofLayer l primary).Spares (ofLayer (l.withoutBox k c) primary) s k c w := by
  obtain ⟨names, hmem⟩ := exists_of_mem_findings hlayer (List.mem_filter.mp hw).1
  obtain ⟨g, hg, rfl⟩ := (mem_layerFindings_iff_of_declaredBox (Or.inr hrule)).mp hmem
  obtain ⟨-, b, e, hb, hi, he, rfl⟩ := redundantBox_of_mem hg hrule hdetail
  have h : (ofLayer l primary).Repeats k c b e := ⟨hb, hi, he⟩
  have hk : k < (ofLayer l primary).size := Arena.lt_size_of_box? hb
  obtain ⟨before, after, honly⟩ := exists_onlyBox_of_no_error hk hb hnone
  have hfindings := lessOne_findings (s := s) h honly hk
  refine ⟨sameLinks_withoutBox, ⟨before, b, after, honly.split, honly.crs, ?_⟩, fun j hj => ?_,
    alike_withoutBox h, referenced_withoutBox h, hfindings.errors_eq rfl, hfindings.warnings rfl⟩
  · rw [attributes_withoutBox_eq, attributes_withoutBox, if_pos rfl, boxes_withoutBox honly]
  · rw [attributes_withoutBox, if_neg hj]

/-- The layer with the box of the sample service. -/
def withSampleBox (l : Layer) : Layer := l.withBox ⟨"EPSG:4326"⟩ (.ofQuotients 10 32 507 73 536)

/-- A group between a top layer and a data layer, all of which declare the same box. -/
def repeatedBoxes : Layer :=
  (withSampleBox (.described "top")).withChild
    ((withSampleBox (.described "group")).withChild (withSampleBox (Samples.plainData "data")))

/-- The warning about the box of the group. -/
def repeatedBoxWarning : Finding :=
  { Finding.of .redundantBoundingBox with
    layer := some 1, layerName := some "group", field := some .boundingBoxes, related := some 0,
    detail := some "EPSG:4326" }

/-- The group does without its box, and the data layer then repeats that of the top layer. -/
theorem spares_repeatedBoxes :
    repeatedBoxWarning ∈ ((ofLayer repeatedBoxes .standard).check {}).warnings ∧
      (ofLayer repeatedBoxes .standard).Spares
        (ofLayer (repeatedBoxes.withoutBox 1 ⟨"EPSG:4326"⟩) .standard) {} 1 ⟨"EPSG:4326"⟩
        repeatedBoxWarning :=
  have h : repeatedBoxWarning ∈ ((ofLayer repeatedBoxes .standard).check {}).warnings := by
    decide +kernel
  ⟨h, spares_withoutBox h rfl rfl rfl (by decide +kernel)⟩

end Hierarchy

end MapLayers
