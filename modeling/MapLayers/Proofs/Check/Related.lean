import MapLayers.Proofs.Boxes.Inheritance
import MapLayers.Proofs.Check.Acceptance
import MapLayers.Proofs.Check.ByLayer
import MapLayers.Text.ReportJson

/-!
# The layers that results refer to

A finding gives the position of a layer and sometimes that of a second layer, and an inherited box
gives the position of the ancestor that declares it.  These positions are handed out to be used
later.  They are positions of layers of the hierarchy, the second layer of a finding comes before
the first, and it is the one that the rule is about (`Hierarchy.Relates`): the first layer of the
name, the ancestor that the box would be inherited from, or the parent that has the style.

Nothing else can be related.  A finding is made by the check for the group of its rule, and each
check is gone through for what it relates (`Hierarchy.relates_of_mem_groupFindings`); most relate
nothing.

An exported report gives the name of a second layer beside its position, and looks it up in the
arena.  Since the positions are those of layers, an evaluation can always be exported
(`Evaluation.exists_exported`).  For the boxes of a layer, the ancestor that one is inherited from
is a layer as well (`Evaluation.anchored_ofLayer`).
-/

set_option autoImplicit false

namespace MapLayers

namespace Hierarchy

/-- What the second layer of a finding about a layer is. -/
inductive Relates (h : Hierarchy) (k : Nat) (f : Finding) (r : Nat) : Prop
  /-- It is the first layer of the same name. -/
  | namesake {name : String} (rule : f.rule = .duplicateName) (named : h.name k = some name)
      (first : h.findByName name = some r)
  /-- It is the parent, which has a style of the same name. -/
  | parent (rule : f.rule = .styleNameCollision) (parent : h.parent k = some r)
  /-- It is the nearest ancestor that declares a box for the system, and it declares the same
  one. -/
  | ancestor {b d : DeclaredBox} (rule : f.rule = .redundantBoundingBox)
      (declared : b ∈ (h.attributes k).boxes) (detail : f.detail = some b.crs.id)
      (nearest : h.Nearest (h.Declares b.crs) k r) (box : (h.attributes r).box? b.crs = some d)
      (same : (d.rect == b.rect) = true)

/-- A finding is about a layer, and involves no second layer but one before it that the rule is
about. -/
structure Anchors (h : Hierarchy) (f : Finding) (k : Nat) : Prop where
  lt : k < h.size
  layer : f.layer = some k
  layerName : f.layerName = h.name k
  related : ∀ r, f.related = some r → r < k ∧ h.Relates k f r

end Hierarchy

/-- The positions in an evaluation are those of layers of the hierarchy. -/
structure Evaluation.Anchored (e : Evaluation) : Prop where
  /-- Findings are about layers, except for the one rule about the hierarchy as a whole. -/
  layer : ∀ f ∈ e.report.all, f.rule ≠ .noVisibleLayer → ∃ k, e.hierarchy.Anchors f k
  /-- What is said about the hierarchy as a whole involves no layer. -/
  whole : ∀ f ∈ e.report.all, f.rule = .noVisibleLayer → f = Finding.of .noVisibleLayer
  /-- Inherited boxes are those of ancestors that declare them. -/
  inherited : ∀ k < e.hierarchy.size, ∀ c rect a,
    (c, ⟨rect, .inherited a⟩) ∈ e.hierarchy.boxTable k →
      e.hierarchy.Above a k ∧ ∃ b, (e.hierarchy.attributes a).box? c = some b ∧ b.rect = rect

/-! ## Rules that involve one layer only

Most checks relate nothing, which their definitions show. -/

section

variable {a : Attributes} {role : Role} {s : Settings}

theorem related_checkVisibility : ∀ f ∈ checkVisibility a role, f.related = none := by
  rw [checkVisibility]
  split
  · refine List.forall_mem_append.mpr ⟨List.forall_mem_append.mpr
      ⟨?_, List.forall_mem_map.mpr fun _ _ => rfl⟩, ?_⟩
    · split
      · exact List.forall_mem_nil _
      · exact List.forall_mem_singleton.mpr rfl
    · exact List.forall_mem_flatMap.mpr fun _ _ => List.forall_mem_map.mpr fun _ _ => rfl
  · exact List.forall_mem_append.mpr
      ⟨List.forall_mem_map.mpr fun _ _ => rfl, List.forall_mem_map.mpr fun _ _ => rfl⟩

theorem related_checkStyles : ∀ f ∈ checkStyles s a role, f.related = none := by
  rw [checkStyles]
  refine List.forall_mem_append.mpr ⟨List.forall_mem_map.mpr fun _ _ => rfl, ?_⟩
  split
  · intro f hf
    obtain ⟨st, -, hst⟩ := List.mem_filterMap.mp hf
    obtain ⟨rule, -, rfl⟩ := Option.map_eq_some_iff.mp hst
    rfl
  · split
    · exact List.forall_mem_nil _
    · exact List.forall_mem_singleton.mpr rfl

theorem related_checkSource : ∀ f ∈ checkSource s a role, f.related = none := by
  rw [checkSource]
  split
  · split
    · exact List.forall_mem_singleton.mpr rfl
    · exact List.forall_mem_nil _
  · refine List.forall_mem_append.mpr ⟨List.forall_mem_append.mpr ⟨?_, ?_⟩,
      List.forall_mem_map.mpr fun _ _ => rfl⟩
    · split
      · exact List.forall_mem_nil _
      · exact List.forall_mem_singleton.mpr rfl
    · split
      · exact List.forall_mem_singleton.mpr rfl
      · exact List.forall_mem_nil _

theorem related_checkScales : ∀ f ∈ checkScales a, f.related = none := by
  rw [checkScales]
  split
  · split
    · exact List.forall_mem_singleton.mpr rfl
    · exact List.forall_mem_nil _
  · exact List.forall_mem_nil _

theorem related_checkPrimaryBox {effective : Option EffectiveBox} :
    ∀ f ∈ checkPrimaryBox s effective, f.related = none := by
  rw [checkPrimaryBox]
  split
  · exact List.forall_mem_nil _
  · split
    · exact List.forall_mem_nil _
    · exact List.forall_mem_singleton.mpr rfl

end

/-! ## Rules that involve a second layer

Three do: names, declared boxes and shared styles.  In each case the second layer stands before the
first, since it was met earlier, is an ancestor, or is the parent. -/

namespace Hierarchy

variable {h : Hierarchy} {l : Layer} {primary c : Crs} {s : Settings} {k r : Nat} {f : Finding}
  {shared : List (Nat × List String)} {rect : Rect} {b : EffectiveBox}

theorem Relates.located (hf : h.Relates k f r) (j : Nat) (name : Option String) :
    h.Relates k (f.located j name) r := by
  cases hf with
  | namesake rule named first => exact .namesake rule named first
  | parent rule parent => exact .parent rule parent
  | ancestor rule declared detail nearest box same =>
    exact .ancestor rule declared detail nearest box same

/-- The first layer of a name is the first in the arena. -/
theorem findByName_of_find? {name : String} {size : Nat} (hsize : size ≤ h.size)
    (hne : name ≠ "")
    (hfind : (List.range size).find? (fun j => (h.attributes j).properName == some name) = some r) :
    r < size ∧ h.findByName name = some r := by
  rw [List.find?_range_eq_some] at hfind
  obtain ⟨hr, hlt, hbefore⟩ := hfind
  rw [List.mem_range] at hlt
  have hname (j : Nat) (hj : j < h.nodes.toList.length) :
      (h.nodes.toList[j].attributes.name == some name) = true ↔
        ((h.attributes j).properName == some name) = true := by
    have hattributes : h.attributes j = h.nodes.toList[j].attributes := by
      rw [Arena.attributes, ← Array.getElem?_toList, List.getElem?_eq_getElem hj]
      rfl
    rw [beq_iff_eq, beq_iff_eq, Attributes.properName_eq_some_iff, hattributes, and_iff_left hne]
  have hlen : r < h.nodes.toList.length := Nat.lt_of_lt_of_le hlt hsize
  refine ⟨hlt, List.findIdx?_eq_some_iff_getElem.mpr ⟨hlen, (hname r hlen).mpr hr, ?_⟩⟩
  intro j hj hbeq
  have hfresh := hbefore j hj
  rw [(hname j (Nat.lt_trans hj hlen)).mp hbeq] at hfresh
  cases hfresh

/-- A name that is used before was first used by the first layer of the name. -/
theorem relates_of_mem_checkName (hk : k < h.size) {role : Role}
    (hf : f ∈ checkName (h.holdersBefore k) (h.attributes k) role) (hr : f.related = some r) :
    r < k ∧ h.Relates k f r := by
  rw [checkName] at hf
  split at hf
  · split at hf
    · cases hf
    · rw [List.mem_singleton.mp hf] at hr
      cases hr
  · rename_i name hname
    rw [lookup_holdersBefore] at hf
    split at hf
    · cases hf
    · rename_i first hfirst
      rw [List.mem_singleton] at hf
      subst hf
      obtain rfl : first = r := Option.some.inj hr
      have hproper := Attributes.properName_eq_some_iff.mp hname
      obtain ⟨hlt, hfound⟩ := findByName_of_find? (Nat.le_of_lt hk) hproper.2 hfirst
      exact ⟨hlt, .namesake rfl hproper.1 hfound⟩

/-- A redundant box is that of the nearest ancestor that declares one. -/
theorem relates_of_mem_checkDeclaredBoxes {seen : List Crs}
    (hf : f ∈ checkDeclaredBoxes ((ofLayer l primary).inheritedBox k) seen
      ((ofLayer l primary).attributes k).boxes)
    (hr : f.related = some r) : r < k ∧ (ofLayer l primary).Relates k f r := by
  obtain ⟨b, hb, rfl | ⟨e, he, hsame, rfl⟩⟩ := cases_of_mem_checkDeclaredBoxes hf
  · cases hr
  · obtain ⟨a, d, hnearest, hd, rfl⟩ := (inheritedBox_eq_some_iff b.crs e k).mp he
    obtain rfl : a = r := Option.some.inj hr
    exact ⟨hnearest.above.lt fun _ _ => parent_lt, .ancestor rfl hb rfl hnearest hd hsame⟩

theorem relates_of_mem_checkSharedStyles {a : Attributes} {names : List String}
    (hf : f ∈ checkSharedStyles a ((ofLayer l primary).parent k) names) (hr : f.related = some r) :
    r < k ∧ (ofLayer l primary).Relates k f r := by
  rw [checkSharedStyles] at hf
  split at hf
  · obtain ⟨name, -, rfl⟩ := List.mem_map.mp hf
    have hparent : (ofLayer l primary).parent k = some r := hr
    exact ⟨parent_lt hparent, .parent rfl hparent⟩
  · cases hf

/-- **The second layer of a finding comes first**, and is the one that the rule is about. -/
theorem relates_of_mem_groupFindings (hk : k < (ofLayer l primary).size) (hr : f.related = some r) :
    ∀ g, f ∈ (ofLayer l primary).groupFindings s shared ((ofLayer l primary).holdersBefore k) k g →
      r < k ∧ (ofLayer l primary).Relates k f r
  | .names, hf => relates_of_mem_checkName hk hf hr
  | .visibility, hf => absurd ((related_checkVisibility f hf).symm.trans hr) (by simp)
  | .styles, hf => absurd ((related_checkStyles f hf).symm.trans hr) (by simp)
  | .source, hf => absurd ((related_checkSource f hf).symm.trans hr) (by simp)
  | .scales, hf => absurd ((related_checkScales f hf).symm.trans hr) (by simp)
  | .boxes, hf => by
    rcases List.mem_append.mp hf with hf | hf
    · exact relates_of_mem_checkDeclaredBoxes hf hr
    · exact absurd ((related_checkPrimaryBox f hf).symm.trans hr) (by simp)
  | .sharedStyles, hf => relates_of_mem_checkSharedStyles hf hr
  | .hierarchy, hf => absurd hf List.not_mem_nil

/-- A finding is about the hierarchy as a whole, or about a layer. -/
theorem cases_of_mem_findings (hf : f ∈ (ofLayer l primary).findings s) :
    f = Finding.of .noVisibleLayer ∨
      (f.rule ≠ .noVisibleLayer ∧ ∃ k, (ofLayer l primary).Anchors f k) := by
  rw [findings_eq, List.mem_append, List.mem_flatMap] at hf
  rcases hf with ⟨k, hk, hf⟩ | hf
  · rw [layerFindings_eq_groups, List.mem_map] at hf
    obtain ⟨g, hg, rfl⟩ := hf
    obtain ⟨i, hgroup, hi⟩ := List.mem_flatMap.mp hg
    have hlt := mem_all_iff.mp hk
    refine Or.inr ⟨?_, k, hlt, rfl, rfl, fun r (hr : g.related = some r) => ?_⟩
    · intro hrule
      have hwhole : g.rule.group = .hierarchy := congrArg Rule.group hrule
      rw [← ofGroup_groupFindings i g hi, hwhole] at hgroup
      simp [RuleGroup.ofLayer] at hgroup
    obtain ⟨hrk, hrelates⟩ := relates_of_mem_groupFindings hlt hr i hi
    exact ⟨hrk, hrelates.located k _⟩
  · rw [checkAnyVisible] at hf
    split at hf
    · cases hf
    · exact Or.inl (List.mem_singleton.mp hf)

/-! ## Inherited boxes -/

/-- The table of a layer has its effective boxes. -/
theorem mem_boxTable_iff (hk : k < (ofLayer l primary).size) :
    (c, b) ∈ (ofLayer l primary).boxTable k ↔ (ofLayer l primary).effectiveBox k c = some b := by
  obtain ⟨q, hq, rfl⟩ := Arena.exists_place hk
  rw [effectiveBox, boxTable_eq hq, Node.boxTable, lookup_filterMap, List.mem_filterMap]
  refine ⟨?_, ?_⟩
  · rintro ⟨d, hd, heq⟩
    obtain ⟨e, he, heq⟩ := Option.map_eq_some_iff.mp heq
    cases heq
    rw [if_pos hd, he]
  · intro h
    split at h
    · rename_i hc
      exact ⟨c, hc, by rw [h]; rfl⟩
    · cases h

/-- What is inherited is neither declared nor a standard extent. -/
theorem inheritedBox_of_effectiveBox {a : Nat} (hk : k < (ofLayer l primary).size)
    (hb : (ofLayer l primary).effectiveBox k c = some ⟨rect, .inherited a⟩) :
    (ofLayer l primary).inheritedBox k c = some ⟨rect, .inherited a⟩ := by
  rw [effectiveBox_of_lt hk, Option.or_eq_some_iff, Option.or_eq_some_iff] at hb
  rcases hb with hb | ⟨-, hb | ⟨-, hb⟩⟩
  · obtain ⟨d, -, heq⟩ := Option.map_eq_some_iff.mp hb
    cases heq
  · exact hb
  · rw [standardBox] at hb
    split at hb
    · obtain ⟨d, -, heq⟩ := Option.map_eq_some_iff.mp hb
      cases heq
    · cases hb

theorem above_of_mem_boxTable {a : Nat} (hk : k < (ofLayer l primary).size)
    (hb : (c, ⟨rect, .inherited a⟩) ∈ (ofLayer l primary).boxTable k) :
    (ofLayer l primary).Above a k ∧
      ∃ d, ((ofLayer l primary).attributes a).box? c = some d ∧ d.rect = rect := by
  have hinherited := inheritedBox_of_effectiveBox hk ((mem_boxTable_iff hk).mp hb)
  obtain ⟨n, d, hnearest, hd, heq⟩ := (inheritedBox_eq_some_iff c _ k).mp hinherited
  cases heq
  exact ⟨hnearest.above, d, hd, rfl⟩

end Hierarchy

/-! ## Exported reports

The export looks the second layer of every finding up.  It can fail nowhere else, so a report whose
second layers belong to the arena can be exported. -/

/-- What comes of two steps comes of the first one, and then of the second. -/
theorem exists_of_bind_eq_ok {ε α β : Type} {x : Except ε α} {f : α → Except ε β} {b : β}
    (h : x >>= f = .ok b) : ∃ a, x = .ok a ∧ f a = .ok b := by
  cases x with
  | error error => cases h
  | ok a => exact ⟨a, rfl, h⟩

theorem map_eq_ok_iff {ε α β : Type} {x : Except ε α} {f : α → β} {b : β} :
    x.map f = .ok b ↔ ∃ a, x = .ok a ∧ f a = b := by
  cases x <;> simp [Except.map]

/-- When something comes of each element, something comes of the list. -/
theorem exists_mapM_eq_ok {ε α β : Type} {f : α → Except ε β} : ∀ {xs : List α},
    (∀ x ∈ xs, ∃ y, f x = .ok y) → ∃ ys, xs.mapM f = .ok ys
  | [], _ => ⟨[], rfl⟩
  | x :: xs, h => by
    rw [List.forall_mem_cons] at h
    obtain ⟨y, hy⟩ := h.1
    obtain ⟨ys, hys⟩ := exists_mapM_eq_ok h.2
    refine ⟨y :: ys, ?_⟩
    rw [List.mapM_cons, hy, hys]
    rfl

/-- A finding can be exported when its second layer belongs to the arena. -/
theorem Finding.exists_exported {t : Arena} {f : Finding}
    (h : ∀ r, f.related = some r → r < t.size) : ∃ json, f.exported t = .ok json := by
  rw [exported, relatedName]
  cases hrelated : f.related with
  | none => exact ⟨_, rfl⟩
  | some r =>
    dsimp only
    rw [t.ask_eq_ok_of_lt (h r hrelated)]
    exact ⟨_, rfl⟩

theorem Report.exists_exported {t : Arena} {r : Report}
    (h : ∀ f ∈ r.all, ∀ k, f.related = some k → k < t.size) : ∃ json, r.exported t = .ok json := by
  rw [all, List.forall_mem_append] at h
  obtain ⟨errors, herrors⟩ := exists_mapM_eq_ok fun f hf => Finding.exists_exported (h.1 f hf)
  obtain ⟨warnings, hwarnings⟩ := exists_mapM_eq_ok fun f hf => Finding.exists_exported (h.2 f hf)
  rw [exported, herrors, hwarnings]
  exact ⟨_, rfl⟩

/-- The report on a hierarchy can be exported, since second layers belong to the hierarchy. -/
theorem Hierarchy.exists_exported (l : Layer) (primary : Crs) (s : Settings) :
    ∃ json, ((ofLayer l primary).check s).exported (ofLayer l primary).toArena = .ok json := by
  refine Report.exists_exported fun f hf r hr => ?_
  rcases cases_of_mem_findings (mem_all_check_iff.mp hf) with rfl | ⟨-, k, h⟩
  · cases hr
  · exact Nat.lt_trans (h.related r hr).1 h.lt

/-! ## Evaluations -/

namespace Evaluation

/-- **All positions in an evaluation are those of layers** of the hierarchy. -/
theorem anchored_ofLayer (s : Settings) (l : Layer) : (ofLayer s l).Anchored where
  layer f hf hrule := by
    rcases Hierarchy.cases_of_mem_findings (Hierarchy.mem_all_check_iff.mp hf) with rfl | ⟨-, h⟩
    · exact absurd rfl hrule
    · exact h
  whole f hf hrule := by
    rcases Hierarchy.cases_of_mem_findings (Hierarchy.mem_all_check_iff.mp hf) with h | ⟨h, -⟩
    · exact h
    · exact absurd hrule h
  inherited _ hk _ _ _ hb := Hierarchy.above_of_mem_boxTable hk hb

/-- **An evaluation can be exported.** -/
theorem exists_exported (s : Settings) (l : Layer) :
    ∃ json, (ofLayer s l).report.exported (ofLayer s l).hierarchy.toArena = .ok json :=
  Hierarchy.exists_exported l s.primary s

end Evaluation

end MapLayers
