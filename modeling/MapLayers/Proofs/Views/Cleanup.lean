import MapLayers.Proofs.Check.Repetitions

/-!
# What a cleanup lists

Where a layer has a style in common with its parent, by name, the legend reference of that style has
to follow the parent.  The cleanup goes through the names of these styles and looks every name up in
the layer again, which finds the first style of that name.  So it lists the styles in common, but
that of several styles of one name it lists the first each time, and the others never
(`Hierarchy.listsFirst`).

Two styles of one name in one layer are an error.  When there are none the cleanup is what it should
be: every style that a layer has in common with its parent, once (`Arena.legendCleanup_of_nodup`).
With such an error it may not be (`Hierarchy.legendCleanup_twins`), and it is not whenever one of
the styles in common is not the first of its name (`Arena.legendCleanup_eq_iff`).

Whether a check has found such an error can be asked of its report: one that reports no name of a
style as used before has seen different names in every layer (`Hierarchy.nodup_styleNames`).
-/

set_option autoImplicit false

namespace MapLayers

namespace Arena

/-- A style is the first one of its name in its layer. -/
def IsFirst (t : Arena) (e : LayerStyle) : Prop :=
  (t.attributes e.layer).style? e.style.name = some e.style

end Arena

/-- The cleanup lists the styles that layers have in common with their parents, by the first style
of each name. -/
structure Hierarchy.ListsFirst (h : Hierarchy) (s : Settings) : Prop where
  /-- There is nothing to clean up unless the settings call for it. -/
  uncleaned : s.cleansSharedStyles = false → h.legendCleanup s = []
  /-- For each style in common, the first of its name in the layer is listed. -/
  listed : s.cleansSharedStyles = true → h.legendCleanup s = h.allInCommon.map h.firstNamed
  /-- So a style in common is listed just when it is the first of its name. -/
  mem_iff : s.cleansSharedStyles = true → ∀ e,
    e ∈ h.legendCleanup s ↔ e ∈ h.allInCommon ∧ h.IsFirst e
  /-- The styles in common are listed, each once, just when all of them are the first of their
  names. -/
  exact_iff : s.cleansSharedStyles = true →
    (h.legendCleanup s = h.allInCommon ↔ ∀ e ∈ h.allInCommon, h.IsFirst e)
  /-- They are where no layer has two styles of one name, -/
  distinct : s.cleansSharedStyles = true →
    (∀ k, ((h.attributes k).styles.map Style.name).Nodup) → h.legendCleanup s = h.allInCommon
  /-- and so they are when no check has reported a name of a style as used before. -/
  unreported : s.cleansSharedStyles = true → ∀ s' : Settings,
    (h.check s').errorsAbout .duplicateStyleName = [] → h.legendCleanup s = h.allInCommon

/-- Where all names are different, every style is the first of its name. -/
theorem Attributes.style?_name_of_nodup {a : Attributes} {st : Style}
    (hnd : (a.styles.map Style.name).Nodup) (hst : st ∈ a.styles) : a.style? st.name = some st := by
  obtain ⟨first, hmem, hname, hfirst⟩ := exists_style?_name hst
  rw [hfirst, List.inj_on_of_nodup_map hnd hmem hst hname]

namespace Arena

variable {t : Arena} {l : Layer} {s : Settings} {e : LayerStyle}

/-! ## The first styles -/

theorem firstNamed_of_isFirst (h : t.IsFirst e) : t.firstNamed e = e := by
  rw [firstNamed, show (t.attributes e.layer).style? e.style.name = some e.style from h]
  rfl

/-- The first style of a name that is in common is in common as well. -/
theorem firstNamed_mem (he : e ∈ t.allInCommon) :
    t.firstNamed e ∈ t.allInCommon ∧ t.IsFirst (t.firstNamed e) := by
  obtain ⟨hlayer, hstyle⟩ := mem_allInCommon_iff.mp he
  obtain ⟨hmem, hcommon⟩ := List.mem_filter.mp hstyle
  obtain ⟨first, hfirst, hname, hfound⟩ := Attributes.exists_style?_name hmem
  have heq : t.firstNamed e = ⟨e.layer, first⟩ := by
    rw [firstNamed, hfound]
    rfl
  rw [heq, mem_allInCommon_iff, stylesInCommon, List.mem_filter]
  refine ⟨⟨hlayer, hfirst, ?_⟩, ?_⟩
  · rw [hname]
    exact hcommon
  · rw [← hname] at hfound
    exact hfound

/-! ## What is listed

The cleanup has as many entries as there are styles in common, and the same layers and names in the
same order.  It differs from the list of these styles wherever one of them is not the first of its
name. -/

theorem mem_legendCleanup_iff (hs : s.cleansSharedStyles = true) :
    e ∈ (ofLayer l).legendCleanup s ↔ e ∈ (ofLayer l).allInCommon ∧ (ofLayer l).IsFirst e := by
  rw [legendCleanup_eq_map l hs, List.mem_map]
  refine ⟨?_, fun h => ⟨e, h.1, firstNamed_of_isFirst h.2⟩⟩
  rintro ⟨d, hd, rfl⟩
  exact firstNamed_mem hd

/-- **The styles in common are listed, each once**, just when all of them are first of their
names. -/
theorem legendCleanup_eq_iff (hs : s.cleansSharedStyles = true) :
    (ofLayer l).legendCleanup s = (ofLayer l).allInCommon ↔
      ∀ e ∈ (ofLayer l).allInCommon, (ofLayer l).IsFirst e := by
  refine ⟨fun h e he => ?_, fun h => ?_⟩
  · rw [← h] at he
    exact ((mem_legendCleanup_iff hs).mp he).2
  · rw [legendCleanup_eq_map l hs]
    exact (List.map_congr_left fun e he => firstNamed_of_isFirst (h e he)).trans (List.map_id _)

theorem legendCleanup_of_nodup (hs : s.cleansSharedStyles = true)
    (hnd : ∀ k, (((ofLayer l).attributes k).styles.map Style.name).Nodup) :
    (ofLayer l).legendCleanup s = (ofLayer l).allInCommon :=
  (legendCleanup_eq_iff hs).mpr fun e he =>
    Attributes.style?_name_of_nodup (hnd e.layer) (mem_styles_of_mem_allInCommon he)

end Arena

namespace Hierarchy

variable {l : Layer} {primary : Crs} {s : Settings}

/-- A check that reports no name of a style as used before has seen different names in every
layer. -/
theorem nodup_styleNames (h : ((ofLayer l primary).check s).errorsAbout .duplicateStyleName = [])
    (k : Nat) : (((ofLayer l primary).attributes k).styles.map Style.name).Nodup := by
  by_cases hk : k < (ofLayer l primary).size
  · have hnone : ((ofLayer l primary).check s).errorsAt .duplicateStyleName k = [] := by
      rw [Report.errorsAt, h]
      rfl
    have hrepeated : ((ofLayer l primary).groupFindings s ((ofLayer l primary).forbiddenShared s)
        ((ofLayer l primary).holdersBefore k) k .styles).filter (·.rule == .duplicateStyleName)
          = _ := filter_checkStyles_repeated
    rw [errorsAt_check rfl hk] at hnone
    have hnil := hrepeated.symm.trans (List.map_eq_nil_iff.mp hnone)
    exact (repeated_eq_nil_iff.mp (List.map_eq_nil_iff.mp hnil)).1
  · rw [Arena.attributes_of_size_le (Nat.not_lt.mp hk)]
    exact List.nodup_nil

/-- **The cleanup lists the first style of each name in common.** -/
theorem listsFirst (l : Layer) (primary : Crs) (s : Settings) :
    (ofLayer l primary).ListsFirst s where
  uncleaned hs := legendCleanup_eq_nil hs
  listed hs := Arena.legendCleanup_eq_map l hs
  mem_iff hs _ := Arena.mem_legendCleanup_iff hs
  exact_iff hs := Arena.legendCleanup_eq_iff hs
  distinct hs hnd := Arena.legendCleanup_of_nodup hs hnd
  unreported hs _ hnone := Arena.legendCleanup_of_nodup hs (nodup_styleNames hnone)

/-- A layer below another, with two styles of the name of the one style there. -/
def twins : Layer :=
  .node { name := some "P", styles := [{ name := "s" }] }
    [.leaf { name := some "Q", styles := [{ name := "s", title := some "a" },
      { name := "s", title := some "b" }] }]

/-- Of two styles of one name, the first is listed twice and the second is not listed. -/
theorem legendCleanup_twins :
    (ofLayer twins .standard).allInCommon
        = [⟨1, { name := "s", title := some "a" }⟩, ⟨1, { name := "s", title := some "b" }⟩] ∧
      (ofLayer twins .standard).legendCleanup { comparesStyles := true, rewritesGroups := true }
        = [⟨1, { name := "s", title := some "a" }⟩, ⟨1, { name := "s", title := some "a" }⟩] := by
  decide +kernel

end Hierarchy

end MapLayers
