import MapLayers.Proofs.Check.ByLayer
import MapLayers.Proofs.Views.Collisions
import MapLayers.Samples

/-!
# Collisions are errors or call for cleaning up

A style name that a layer shares with its parent is an error, or its legend reference has to be
cleaned up, or neither: the settings decide.  The two ways look at the same names in the same order,
and differ in one respect only, which is that hidden layers have no errors of this kind
(`Hierarchy.collisionsAgree`).

To compare the two, one hierarchy is looked at under settings that differ in the proxy alone, which
either replaces groups by the layers below them or does not (`Settings.withRewriting`).  With a
proxy that does, shared names are cleaned up; with one that does not, they are errors where the
settings ask for that.  Never both.

`Report.collisions` reads the errors off a report as pairs of a layer and a style name.  What would
be an error is what would be cleaned up in the visible layers
(`Hierarchy.collisions_eq_legendCleanup`), as sequences: nothing is left out, repeated or put in
another order.
-/

set_option autoImplicit false

namespace MapLayers

namespace Settings

/-- The settings with a proxy that does or does not replace groups. -/
def withRewriting (s : Settings) (rewrites : Bool) : Settings :=
  { s with rewritesGroups := rewrites }

theorem forbidsSharedStyles_withRewriting (s : Settings) (rewrites : Bool) :
    (s.withRewriting rewrites).forbidsSharedStyles = (s.comparesStyles && !rewrites) := rfl

theorem cleansSharedStyles_withRewriting (s : Settings) (rewrites : Bool) :
    (s.withRewriting rewrites).cleansSharedStyles = (s.comparesStyles && rewrites) := rfl

end Settings

/-- The layer and the style of a finding, where it has both. -/
def Finding.layerStyle? (f : Finding) : Option (Nat × String) :=
  f.layer.bind fun k => f.style.map (k, ·)

/-- The errors about style names that layers share with their parents. -/
def Report.collisions (r : Report) : List Finding := r.errors.filter (·.rule == .styleNameCollision)

namespace Hierarchy

/-- With given settings, shared style names are errors or call for cleaning up, never both, and the
two agree about visible layers. -/
structure CollisionsAgree (h : Hierarchy) (s : Settings) : Prop where
  /-- Where style names are not compared there is neither. -/
  neither : s.comparesStyles = false → ∀ rewrites : Bool,
    (h.check (s.withRewriting rewrites)).ofRule .styleNameCollision = [] ∧
      h.legendCleanup (s.withRewriting rewrites) = []
  /-- Without a proxy nothing is cleaned up. -/
  uncleaned : s.comparesStyles = true → h.legendCleanup (s.withRewriting false) = []
  /-- With a proxy nothing is reported. -/
  unreported : s.comparesStyles = true →
    (h.check (s.withRewriting true)).ofRule .styleNameCollision = []
  /-- What would be an error is what would be cleaned up in the visible layers: the same names of
  the same layers, in the same order and as often. -/
  agree : s.comparesStyles = true →
    (h.check (s.withRewriting false)).collisions.map Finding.layerStyle?
      = ((h.legendCleanup (s.withRewriting true)).filter
          fun c => (h.attributes c.layer).isVisible).map fun c => some c.key
  /-- An error has the parent of its layer as the second layer. -/
  related : ∀ f ∈ (h.check (s.withRewriting false)).collisions, ∃ k p, f.layer = some k ∧
    h.parent k = some p ∧ f.related = some p

variable {l : Layer} {primary : Crs} {s : Settings} {k : Nat} {f : Finding}

/-! ## The errors, layer by layer

The check looks a layer up in the table of shared styles, and the table has an entry for each layer
that shares any.  So the findings of this kind are those of the layers that are visible, each with
what it shares with its parent. -/

/-- A style name that a layer shares with its parent. -/
def collisionAt (h : Hierarchy) (k : Nat) (name : String) : Finding :=
  { Finding.of .styleNameCollision with
    layer := some k, layerName := (h.attributes k).name, style := some name, related := h.parent k }

theorem group_eq_sharedStyles_iff {r : Rule} :
    r.group = .sharedStyles ↔ r = .styleNameCollision := by
  cases r <;> simp [Rule.group]

/-- What is looked up for a layer, where sharing is forbidden. -/
theorem getD_lookup_forbiddenShared (hk : k < (ofLayer l primary).size) :
    (((ofLayer l primary).forbiddenShared s).lookup k).getD []
      = if s.forbidsSharedStyles then (ofLayer l primary).sharedWithParent k else [] := by
  rw [forbiddenShared]
  split
  · rw [show (ofLayer l primary).styleCollisions.lookup k = _ from Arena.lookup_styleCollisions hk]
    exact Arena.getD_collision? _ _
  · rfl

/-- **The findings about shared style names** are those of the visible layers, where sharing is
forbidden. -/
theorem filter_collision_findings (l : Layer) (primary : Crs) (s : Settings) :
    ((ofLayer l primary).findings s).filter (·.rule == .styleNameCollision)
      = if s.forbidsSharedStyles then
          ((ofLayer l primary).all.filter fun k =>
            ((ofLayer l primary).attributes k).isVisible).flatMap fun k =>
              ((ofLayer l primary).sharedWithParent k).map ((ofLayer l primary).collisionAt k)
        else [] := by
  have hgroup : (fun f : Finding => f.rule == .styleNameCollision)
      = fun f => f.rule.group == .sharedStyles := by
    funext f
    rw [Bool.eq_iff_iff, beq_iff_eq, beq_iff_eq, group_eq_sharedStyles_iff]
  have hlayer : ∀ k ∈ (ofLayer l primary).all, ((ofLayer l primary).groupFindings s
        ((ofLayer l primary).forbiddenShared s) ((ofLayer l primary).holdersBefore k) k
        .sharedStyles).map (·.located k ((ofLayer l primary).attributes k).name)
      = if ((ofLayer l primary).attributes k).isVisible then
          (if s.forbidsSharedStyles then (ofLayer l primary).sharedWithParent k else []).map
            ((ofLayer l primary).collisionAt k)
        else [] := by
    intro k hk
    rw [groupFindings, getD_lookup_forbiddenShared (mem_all_iff.mp hk), checkSharedStyles]
    split
    · rw [List.map_map]
      rfl
    · rfl
  rw [hgroup, filter_group_findings l primary s (by simp), List.flatMap_congr hlayer,
    ← flatMap_filter]
  split
  · rfl
  · exact List.flatMap_eq_nil_iff.mpr fun _ _ => rfl

theorem exists_of_collision (hf : f ∈ (ofLayer l primary).findings s)
    (hrule : f.rule = .styleNameCollision) : ∃ k, ∃ n ∈ (ofLayer l primary).sharedWithParent k,
      f = (ofLayer l primary).collisionAt k n := by
  have hmem : f ∈ ((ofLayer l primary).findings s).filter (·.rule == .styleNameCollision) :=
    List.mem_filter.mpr ⟨hf, beq_iff_eq.mpr hrule⟩
  rw [filter_collision_findings] at hmem
  split at hmem
  · obtain ⟨k, -, hk⟩ := List.mem_flatMap.mp hmem
    obtain ⟨n, hn, rfl⟩ := List.mem_map.mp hk
    exact ⟨k, n, hn, rfl⟩
  · cases hmem

/-- All findings about shared style names are errors. -/
theorem collisions_check (l : Layer) (primary : Crs) (s : Settings) :
    ((ofLayer l primary).check s).collisions
      = ((ofLayer l primary).findings s).filter (·.rule == .styleNameCollision) := by
  rw [Report.collisions, check, Report.ofFindings, List.filter_filter]
  refine List.filter_congr fun f hf => ?_
  by_cases hrule : f.rule = .styleNameCollision
  · obtain ⟨k, n, -, rfl⟩ := exists_of_collision hf hrule
    rfl
  · rw [beq_false_of_ne hrule, Bool.false_and]

theorem ofRule_check_eq_nil (hs : s.forbidsSharedStyles = false) :
    ((ofLayer l primary).check s).ofRule .styleNameCollision = [] := by
  have hnone := filter_collision_findings l primary s
  rw [hs, if_neg Bool.false_ne_true] at hnone
  exact List.filter_eq_nil_iff.mpr fun f hf =>
    List.filter_eq_nil_iff.mp hnone f (mem_all_check_iff.mp hf)

/-- A name that is shared is shared with a parent. -/
theorem exists_parent_of_mem_sharedWithParent {n : String}
    (h : n ∈ (ofLayer l primary).sharedWithParent k) :
    ∃ p, (ofLayer l primary).parent k = some p := by
  rw [← Option.ne_none_iff_exists']
  intro hnone
  rw [Arena.sharedWithParent, hnone] at h
  cases h

/-! ## Errors and cleaning up

The cleanup goes through the same table.  Where the one is switched on the other is not, so the
comparison is between two settings of one hierarchy. -/

theorem legendCleanup_eq_nil {t : Arena} (hs : s.cleansSharedStyles = false) :
    t.legendCleanup s = [] := by
  rw [Arena.legendCleanup, hs, if_neg Bool.false_ne_true]

/-- What would be an error is what would be cleaned up in the visible layers. -/
theorem collisions_eq_legendCleanup (l : Layer) (primary : Crs) {s s' : Settings}
    (hs : s.forbidsSharedStyles = true) (hs' : s'.cleansSharedStyles = true) :
    ((ofLayer l primary).check s).collisions.map Finding.layerStyle?
      = (((ofLayer l primary).legendCleanup s').filter
          fun c => ((ofLayer l primary).attributes c.layer).isVisible).map
            fun c => some c.key := by
  have hkeys : (((ofLayer l primary).legendCleanup s').filter
      fun c => ((ofLayer l primary).attributes c.layer).isVisible).map LayerStyle.key
        = ((ofLayer l primary).all.filter fun k =>
            ((ofLayer l primary).attributes k).isVisible).flatMap fun k =>
              ((ofLayer l primary).sharedWithParent k).map (k, ·) := by
    have hfilter := List.filter_map (f := LayerStyle.key)
      (p := fun e => ((ofLayer l primary).attributes e.1).isVisible)
      (l := (ofLayer l primary).legendCleanup s')
    refine hfilter.symm.trans ?_
    rw [show ((ofLayer l primary).legendCleanup s').map LayerStyle.key = _ from
      Arena.names_legendCleanup l s' hs', List.filter_flatMap, flatMap_filter]
    refine List.flatMap_congr fun k _ => ?_
    rw [List.filter_map]
    split
    · rename_i hvisible
      exact congrArg _ (List.filter_eq_self.mpr fun _ _ => hvisible)
    · rename_i hhidden
      exact congrArg _ (List.filter_eq_nil_iff.mpr fun _ _ => hhidden)
  have hsome : ∀ cs : List LayerStyle, cs.map (fun c => some c.key)
      = (cs.map LayerStyle.key).map some := fun cs => List.map_map.symm
  rw [collisions_check, filter_collision_findings, if_pos hs, hsome, hkeys, List.map_flatMap,
    List.map_flatMap]
  refine List.flatMap_congr fun k _ => ?_
  rw [List.map_map, List.map_map]
  rfl

/-- **Errors and cleaning up agree about shared style names**, and never both apply. -/
theorem collisionsAgree (l : Layer) (primary : Crs) (s : Settings) :
    (ofLayer l primary).CollisionsAgree s where
  neither hs rewrites :=
    ⟨ofRule_check_eq_nil (by rw [Settings.forbidsSharedStyles_withRewriting, hs, Bool.false_and]),
      legendCleanup_eq_nil (by rw [Settings.cleansSharedStyles_withRewriting, hs, Bool.false_and])⟩
  uncleaned _ := legendCleanup_eq_nil (Bool.and_false _)
  unreported _ := ofRule_check_eq_nil (Bool.and_false _)
  agree hs := collisions_eq_legendCleanup l primary
    (by rw [Settings.forbidsSharedStyles_withRewriting, hs]; rfl)
    (by rw [Settings.cleansSharedStyles_withRewriting, hs]; rfl)
  related f hf := by
    rw [collisions_check, List.mem_filter, beq_iff_eq] at hf
    obtain ⟨k, n, hn, rfl⟩ := exists_of_collision hf.1 hf.2
    obtain ⟨p, hp⟩ := exists_parent_of_mem_sharedWithParent hn
    exact ⟨k, p, rfl, hp, hp⟩

example : ((ofLayer Samples.collisions .standard).check {}).collisions.map Finding.layerStyle?
    = [some (1, "s2"), some (2, "s3")] := by decide +kernel

end Hierarchy

end MapLayers
