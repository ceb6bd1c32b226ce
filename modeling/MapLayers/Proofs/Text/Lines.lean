import MapLayers.CommandLine
import MapLayers.Proofs.Check.Related
import MapLayers.Proofs.Layout.Depths

/-!
# The lines of an outline

An outline has a row for each layer of the hierarchy that was read last: indentation, name, role,
and what else there is to say (`Outline.drawsLast`).  The rows are its lines as long as none of the
texts that it shows has a line feed.  These texts are put down as they are, so a name or a style
name with a line feed makes more lines than there are layers (`Hierarchy.outline_brokenStyle`).

Line feeds are counted.  A row has those of the texts that it shows and no others
(`Hierarchy.lineFeeds_outlineRow`), and rows make as many lines as they are just when none of them
has a line feed of its own (`exists_hasLines_iff`).  The name of an ancestor that a box is inherited
from stands in the rows of layers below it, too, but it need not be counted there: the ancestor has
a row itself (`Hierarchy.forall_outlineRow_iff`).

There is a second limit.  The indentation grows with the depth, and a line cannot be indented by
more than `maxIndent` spaces; so a hierarchy has an outline just when no layer of it lies too deep
(`Hierarchy.exists_outline_iff`), whatever was drawn before it (`Outline.exists_redrawAll_iff`).  A
chain of layers has one just while it is short enough (`Hierarchy.exists_outline_chain_iff`): 32768
layers can be drawn, and 32769 cannot.
-/

set_option autoImplicit false

namespace MapLayers

open CommandLine (lines)

/-- A text consists of some lines, each of which ends in a line feed and has no other. -/
structure HasLines (text : String) (ls : List String) : Prop where
  text_eq : text = lines ls
  unbroken : ∀ line ∈ ls, '\n' ∉ line.toList

namespace Hierarchy

/-- None of the texts that the outline shows of a layer has a line feed. -/
structure KeepsToLine (h : Hierarchy) (boxes : Bool) (k : Nat) : Prop where
  /-- The name has none. -/
  name : ∀ name, h.name k = some name → '\n' ∉ name.toList
  /-- No style name has one. -/
  styles : ∀ st ∈ (h.attributes k).styles, '\n' ∉ st.name.toList
  /-- The table or the key of the source has none. -/
  source : ∀ s, (h.attributes k).source = some s → '\n' ∉ s.label.toList
  /-- No coordinate system of a box has one, if boxes are listed. -/
  systems : boxes = true → ∀ e ∈ h.boxTable k, '\n' ∉ e.1.id.toList

end Hierarchy

namespace Outline

/-- Outline some hierarchies, one after the other. -/
def redrawAll (o : Outline) (hs : List Hierarchy) : Except TooDeep Outline := hs.foldlM redraw o

/-- An outline of some hierarchies, one after the other, is that of the last one. -/
structure DrawsLast (o : Outline) (hs : List Hierarchy) (h : Hierarchy) : Prop where
  /-- There is one just when no layer of any of the hierarchies lies too deep. -/
  drawn : (∃ drawn, o.redrawAll (hs ++ [h]) = .ok drawn) ↔
    ∀ g ∈ hs ++ [h], ∀ k < g.size, 2 * g.depth k ≤ maxIndent
  /-- The text has a row for each layer of the last hierarchy, in pre-order, and nothing else. -/
  text : ∀ drawn, o.redrawAll (hs ++ [h]) = .ok drawn →
    drawn.text = lines ((List.range h.size).map (h.outlineRow o.boxes))
  /-- A row is indented by the depth of its layer, and starts with the name and the role. -/
  row : ∀ k, ∃ rest, h.outlineRow o.boxes k = "".pushn ' ' (2 * h.depth k)
    ++ (h.displayName k ++ " [" ++ (h.role k).label ++ "]" ++ rest)
  /-- There are as many lines as layers just when no text that is shown has a line feed. -/
  lines : ∀ drawn, o.redrawAll (hs ++ [h]) = .ok drawn →
    ((∃ ls, ls.length = h.size ∧ HasLines drawn.text ls) ↔
      ∀ k < h.size, h.KeepsToLine o.boxes k)
  /-- Then the lines are the rows. -/
  rows : ∀ drawn, o.redrawAll (hs ++ [h]) = .ok drawn → (∀ k < h.size, h.KeepsToLine o.boxes k) →
    HasLines drawn.text ((List.range h.size).map (h.outlineRow o.boxes))

end Outline

/-! ## Line feeds

Counting line feeds turns questions about texts into sums: texts that are put together have the line
feeds of their parts. -/

/-- The number of line feeds in a text. -/
def lineFeeds (s : String) : Nat := s.toList.count '\n'

theorem lineFeeds_eq_zero_iff {s : String} : lineFeeds s = 0 ↔ '\n' ∉ s.toList := List.count_eq_zero

@[simp] theorem lineFeeds_append (s t : String) :
    lineFeeds (s ++ t) = lineFeeds s + lineFeeds t := by
  rw [lineFeeds, String.toList_append, List.count_append, lineFeeds, lineFeeds]

/-- Texts that have none in all have none each. -/
theorem lineFeeds_join_eq_zero_iff {ss : List String} :
    lineFeeds (String.join ss) = 0 ↔ ∀ s ∈ ss, '\n' ∉ s.toList := by
  rw [lineFeeds_eq_zero_iff, String.toList_join, List.mem_flatMap]
  simp only [not_exists, not_and]

theorem lineFeeds_intercalate {separator : String} (h : lineFeeds separator = 0) :
    ∀ ss : List String, lineFeeds (separator.intercalate ss) = lineFeeds (String.join ss)
  | [] => rfl
  | [s] => by
    rw [String.intercalate_singleton, String.join_cons, String.join_nil, String.append_empty]
  | s :: t :: ss => by
    rw [String.intercalate_cons_cons, lineFeeds_append, lineFeeds_append, h, Nat.add_zero,
      lineFeeds_intercalate h (t :: ss), ← lineFeeds_append, ← String.join_cons]

/-- Indentation has none. -/
theorem lineFeeds_pushn (n : Nat) : lineFeeds ("".pushn ' ' n) = 0 := by
  rw [lineFeeds_eq_zero_iff, String.pushn_eq_repeat_push]
  induction n with
  | zero => decide
  | succ n ih =>
    rw [Nat.repeat, String.toList_push, List.mem_append]
    exact not_or_intro ih (by decide)

theorem lines_cons (row : String) (rows : List String) :
    lines (row :: rows) = row ++ "\n" ++ lines rows := by
  rw [lines, List.map_cons, String.join_cons, lines]

/-- Rows that are put down one below the other have their own line feeds, and one each. -/
theorem lineFeeds_lines (rows : List String) :
    lineFeeds (lines rows) = lineFeeds (String.join rows) + rows.length := by
  induction rows with
  | nil => rfl
  | cons row rows ih =>
    have hfeed : lineFeeds "\n" = 1 := by decide
    rw [lines_cons, lineFeeds_append, lineFeeds_append, ih, hfeed, String.join_cons,
      lineFeeds_append, List.length_cons]
    omega

/-- There are as many line feeds as lines. -/
theorem HasLines.lineFeeds_eq {text : String} {ls : List String} (h : HasLines text ls) :
    lineFeeds text = ls.length := by
  have hnone : lineFeeds (String.join ls) = 0 := lineFeeds_join_eq_zero_iff.mpr h.unbroken
  rw [h.text_eq, lineFeeds_lines, hnone, Nat.zero_add]

/-- **Rows make as many lines as they are** just when none of them has a line feed of its own. -/
theorem exists_hasLines_iff (rows : List String) :
    (∃ ls, ls.length = rows.length ∧ HasLines (lines rows) ls) ↔
      ∀ row ∈ rows, '\n' ∉ row.toList := by
  refine ⟨fun ⟨ls, hlength, hls⟩ => lineFeeds_join_eq_zero_iff.mp ?_,
    fun h => ⟨rows, rfl, rfl, h⟩⟩
  have hfeeds := (lineFeeds_lines rows).symm.trans hls.lineFeeds_eq
  omega

/-! ## The rows of an outline

There is an outline just when no layer lies too deep, and then it consists of the rows of all
layers. -/

namespace Hierarchy

variable {h : Hierarchy} {l : Layer} {primary : Crs} {boxes : Bool} {k : Nat} {ks : List Nat}
  {text : String} {ls : List String}

/-- **Nothing but its depth keeps a layer from having a line**, and the line is its row. -/
theorem outlineLines_eq_ok_iff : h.outlineLines boxes ks = .ok ls ↔
    (∀ k ∈ ks, 2 * h.depth k ≤ maxIndent) ∧ ls = ks.map fun k => h.outlineRow boxes k ++ "\n" := by
  have hnone : ks.find? h.isTooDeep = none ↔ ∀ k ∈ ks, 2 * h.depth k ≤ maxIndent := by
    simp only [List.find?_eq_none, isTooDeep, decide_eq_true_eq, Nat.not_lt]
  rw [← hnone, outlineLines]
  cases ks.find? h.isTooDeep with
  | none => simp [eq_comm]
  | some k => simp

theorem outline_eq_ok_iff : h.outline boxes = .ok text ↔
    (∀ k ∈ h.all, 2 * h.depth k ≤ maxIndent) ∧ text = lines (h.all.map (h.outlineRow boxes)) := by
  have hlines : lines (h.all.map (h.outlineRow boxes))
      = String.join (h.all.map fun k => h.outlineRow boxes k ++ "\n") := by
    rw [lines, List.map_map]
    rfl
  rw [outline, map_eq_ok_iff, hlines]
  constructor
  · rintro ⟨ls, hls, rfl⟩
    obtain ⟨hall, rfl⟩ := outlineLines_eq_ok_iff.mp hls
    exact ⟨hall, rfl⟩
  · rintro ⟨hall, rfl⟩
    exact ⟨_, outlineLines_eq_ok_iff.mpr ⟨hall, rfl⟩, rfl⟩

theorem forall_mem_all_iff {p : Nat → Prop} :
    (∀ k ∈ (ofLayer l primary).all, p k) ↔ ∀ k < (ofLayer l primary).size, p k :=
  forall_congr' fun _ => imp_congr_left mem_all_iff

/-- **A tree has an outline** unless it is too deep. -/
theorem exists_outline_iff : (∃ text, (ofLayer l primary).outline boxes = .ok text) ↔
    ∀ k < (ofLayer l primary).size, 2 * (ofLayer l primary).depth k ≤ maxIndent := by
  simp only [outline_eq_ok_iff, exists_and_left, exists_eq, and_true]
  exact forall_mem_all_iff

/-- In a description the depths can be read off. -/
theorem exists_outline_iff_depths : (∃ text, (ofLayer l primary).outline boxes = .ok text) ↔
    ∀ d ∈ l.depths 0, 2 * d ≤ maxIndent := by
  rw [exists_outline_iff, ← Arena.map_depth_all, List.forall_mem_map]
  exact forall_mem_all_iff.symm

/-- **There are descriptions that are too deep**: of 32769 layers one below the other, the last
cannot be indented as it should. -/
theorem exists_outline_chain_iff (a : Attributes) (as : List Attributes) :
    (∃ text, (ofLayer (.chain a as) primary).outline boxes = .ok text) ↔
      2 * as.length ≤ maxIndent := by
  rw [exists_outline_iff_depths, Layer.depths_chain]
  refine ⟨fun hall => hall as.length ?_, fun hlen d hd => ?_⟩
  · exact List.mem_range'_1.mpr ⟨Nat.zero_le _, by omega⟩
  · have hle := (List.mem_range'_1.mp hd).2
    omega

/-! ## How a row starts -/

/-- A row starts with the name and the role. -/
theorem exists_outlineRow (h : Hierarchy) (boxes : Bool) (k : Nat) : ∃ rest,
    h.outlineRow boxes k = "".pushn ' ' (2 * h.depth k)
      ++ (h.displayName k ++ " [" ++ (h.role k).label ++ "]" ++ rest) := by
  rw [outlineRow, outlineEntry]
  simp only [String.append_assoc]
  exact ⟨_, rfl⟩

/-! ## Line feeds in a row

What a row shows of a layer is its name, the names of its styles, the table or key of its source,
and the systems of its boxes with the ancestors that these come from.  Everything else is a label
without a line feed. -/

theorem lineFeeds_displayName_eq_zero_iff :
    lineFeeds (h.displayName k) = 0 ↔ ∀ name, h.name k = some name → '\n' ∉ name.toList := by
  rw [displayName, lineFeeds_eq_zero_iff]
  cases h.name k with
  | none => exact iff_of_true (by decide) nofun
  | some name => simp

theorem lineFeeds_listing {label : String} (hlabel : lineFeeds label = 0) (items : List String) :
    lineFeeds (listing label items) = lineFeeds (String.join items) := by
  rw [listing]
  cases items with
  | nil => rfl
  | cons item items =>
    show lineFeeds (label ++ ",".intercalate (item :: items)) = _
    rw [lineFeeds_append, hlabel, Nat.zero_add, lineFeeds_intercalate (by decide)]

theorem lineFeeds_role (role : Role) : lineFeeds role.label = 0 := by
  cases role <;> decide

/-- A row has the line feeds of the texts that it shows, and no others. -/
theorem lineFeeds_outlineRow (h : Hierarchy) (boxes : Bool) (k : Nat) :
    lineFeeds (h.outlineRow boxes k) = lineFeeds (h.displayName k)
      + lineFeeds (String.join ((h.attributes k).styles.map Style.name))
      + lineFeeds (((h.attributes k).source.map Source.label).getD "")
      + lineFeeds (if boxes then String.join ((h.boxTable k).map fun e => h.boxLabel e.1 e.2)
          else "") := by
  have hopen : lineFeeds " [" = 0 := by decide
  have hclose : lineFeeds "]" = 0 := by decide
  have hhidden : lineFeeds (if (h.attributes k).isHidden then " hidden" else "") = 0 := by
    split <;> decide
  have hsource : lineFeeds (((h.attributes k).source.map fun s => " data=" ++ s.label).getD "")
      = lineFeeds (((h.attributes k).source.map Source.label).getD "") := by
    cases (h.attributes k).source with
    | none => rfl
    | some s =>
      have hlabel : lineFeeds " data=" = 0 := by decide
      show lineFeeds (" data=" ++ s.label) = lineFeeds s.label
      rw [lineFeeds_append, hlabel, Nat.zero_add]
  have hboxes (labels : List String) : lineFeeds (if boxes then listing " bbox=" labels else "")
      = lineFeeds (if boxes then String.join labels else "") := by
    split
    · exact lineFeeds_listing (by decide) labels
    · rfl
  rw [outlineRow, outlineEntry, lineFeeds_append, lineFeeds_pushn, Nat.zero_add]
  simp only [lineFeeds_append]
  rw [hopen, hclose, hhidden, hsource, hboxes, lineFeeds_role, lineFeeds_listing (by decide)]
  rfl

theorem lineFeeds_boxLabel_eq_zero_iff {c : Crs} {b : EffectiveBox} :
    lineFeeds (h.boxLabel c b) = 0 ↔ '\n' ∉ c.id.toList ∧
      ∀ ancestor, b.origin = .inherited ancestor → lineFeeds (h.displayName ancestor) = 0 := by
  have harrow : lineFeeds "<-" = 0 := by decide
  have hstar : lineFeeds "*" = 0 := by decide
  rw [boxLabel, ← lineFeeds_eq_zero_iff]
  cases b.origin with
  | declared => simp
  | inherited ancestor => simp [harrow]
  | standard => simp [hstar]

/-- **The rows of a tree are free of line feeds** just when all layers keep to one line.  The
ancestor that a box is inherited from has a row of its own, where its name is shown as well. -/
theorem forall_outlineRow_iff : (∀ k < (ofLayer l primary).size,
      '\n' ∉ ((ofLayer l primary).outlineRow boxes k).toList) ↔
    ∀ k < (ofLayer l primary).size, (ofLayer l primary).KeepsToLine boxes k := by
  simp only [← lineFeeds_eq_zero_iff, lineFeeds_outlineRow, Nat.add_eq_zero_iff]
  constructor
  · intro hall k hk
    obtain ⟨⟨⟨hname, hstyles⟩, hsource⟩, hboxes⟩ := hall k hk
    rw [lineFeeds_join_eq_zero_iff, List.forall_mem_map] at hstyles
    refine ⟨lineFeeds_displayName_eq_zero_iff.mp hname, hstyles, ?_, ?_⟩
    · intro s hs
      rw [hs] at hsource
      exact lineFeeds_eq_zero_iff.mp hsource
    · rintro rfl e he
      rw [if_pos rfl, lineFeeds_join_eq_zero_iff, List.forall_mem_map] at hboxes
      exact (lineFeeds_boxLabel_eq_zero_iff.mp (lineFeeds_eq_zero_iff.mpr (hboxes e he))).1
  · intro hall k hk
    obtain ⟨hname, hstyles, hsource, hsystems⟩ := hall k hk
    refine ⟨⟨⟨lineFeeds_displayName_eq_zero_iff.mpr hname, ?_⟩, ?_⟩, ?_⟩
    · exact lineFeeds_join_eq_zero_iff.mpr (List.forall_mem_map.mpr hstyles)
    · cases hs : ((ofLayer l primary).attributes k).source with
      | none => rfl
      | some s => exact lineFeeds_eq_zero_iff.mpr (hsource s hs)
    · split
      · rename_i hlisted
        refine lineFeeds_join_eq_zero_iff.mpr (List.forall_mem_map.mpr fun e he =>
          lineFeeds_eq_zero_iff.mp (lineFeeds_boxLabel_eq_zero_iff.mpr
            ⟨hsystems hlisted e he, fun ancestor horigin => ?_⟩))
        -- the ancestor is a layer of the tree, so it keeps to its line as well
        obtain ⟨c, rect, origin⟩ := e
        cases horigin
        have hlt : ancestor < k := (above_of_mem_boxTable hk he).1.lt fun _ _ => parent_lt
        exact lineFeeds_displayName_eq_zero_iff.mpr (hall ancestor (Nat.lt_trans hlt hk)).name
      · rfl

end Hierarchy

/-! ## One outline after the other

Drawing an outline starts afresh each time and keeps nothing but whether boxes are listed. -/

namespace Outline

variable {o drawn : Outline} {h : Hierarchy} {hs : List Hierarchy}

theorem redraw_eq_ok_iff : o.redraw h = .ok drawn ↔
    (∀ k ∈ h.all, 2 * h.depth k ≤ maxIndent) ∧
      drawn = { o with text := lines (h.all.map (h.outlineRow o.boxes)) } := by
  rw [redraw, map_eq_ok_iff]
  constructor
  · rintro ⟨text, htext, rfl⟩
    obtain ⟨hall, rfl⟩ := Hierarchy.outline_eq_ok_iff.mp htext
    exact ⟨hall, rfl⟩
  · rintro ⟨hall, rfl⟩
    exact ⟨_, Hierarchy.outline_eq_ok_iff.mpr ⟨hall, rfl⟩, rfl⟩

/-- Whether there was an outline before makes no difference to whether there is one. -/
theorem exists_redraw_iff :
    (∃ drawn, o.redraw h = .ok drawn) ↔ ∃ text, h.outline o.boxes = .ok text := by
  constructor
  · rintro ⟨drawn, hdrawn⟩
    obtain ⟨text, htext, -⟩ := map_eq_ok_iff.mp hdrawn
    exact ⟨text, htext⟩
  · rintro ⟨text, htext⟩
    exact ⟨_, map_eq_ok_iff.mpr ⟨text, htext, rfl⟩⟩

/-- Whether boxes are listed does not change. -/
theorem boxes_of_redrawAll : ∀ {hs : List Hierarchy} {o : Outline},
    o.redrawAll hs = .ok drawn → drawn.boxes = o.boxes
  | [], _, hdrawn => by
    cases hdrawn
    rfl
  | h :: hs, o, hdrawn => by
    obtain ⟨next, hnext, hdrawn⟩ := exists_of_bind_eq_ok hdrawn
    have hboxes : next.boxes = o.boxes := by rw [(redraw_eq_ok_iff.mp hnext).2]
    exact (boxes_of_redrawAll hdrawn).trans hboxes

/-- Nothing of what was drawn before keeps a hierarchy from being drawn. -/
theorem exists_redrawAll_iff : ∀ {hs : List Hierarchy} {o : Outline},
    (∃ drawn, o.redrawAll hs = .ok drawn) ↔ ∀ h ∈ hs, ∀ k ∈ h.all, 2 * h.depth k ≤ maxIndent
  | [], o => iff_of_true ⟨o, rfl⟩ (List.forall_mem_nil _)
  | h :: hs, o => by
    rw [List.forall_mem_cons]
    constructor
    · rintro ⟨drawn, hdrawn⟩
      obtain ⟨next, hnext, hdrawn⟩ := exists_of_bind_eq_ok hdrawn
      exact ⟨(redraw_eq_ok_iff.mp hnext).1, exists_redrawAll_iff.mp ⟨drawn, hdrawn⟩⟩
    · rintro ⟨hfirst, hrest⟩
      have hnext : o.redraw h = .ok _ := redraw_eq_ok_iff.mpr ⟨hfirst, rfl⟩
      rw [redrawAll, List.foldlM_cons, hnext]
      exact exists_redrawAll_iff.mpr hrest

/-- Only the last hierarchy shows. -/
theorem text_of_redrawAll (hdrawn : o.redrawAll (hs ++ [h]) = .ok drawn) :
    drawn.text = lines (h.all.map (h.outlineRow o.boxes)) := by
  rw [redrawAll, List.foldlM_append] at hdrawn
  obtain ⟨next, hnext, hlast⟩ := exists_of_bind_eq_ok hdrawn
  obtain ⟨last, hlast, hnil⟩ := exists_of_bind_eq_ok hlast
  cases hnil
  rw [(redraw_eq_ok_iff.mp hlast).2, boxes_of_redrawAll hnext]

/-- **An outline is that of the hierarchy that was read last**, with a row for each layer, and a
line for each as long as no text that it shows has a line feed. -/
theorem drawsLast (o : Outline) (ls : List (Layer × Crs)) (l : Layer) (primary : Crs) :
    o.DrawsLast (ls.map fun (l, primary) => .ofLayer l primary) (.ofLayer l primary) where
  drawn := by
    rw [exists_redrawAll_iff, List.forall_mem_append, List.forall_mem_append, List.forall_mem_map,
      List.forall_mem_map, List.forall_mem_singleton, List.forall_mem_singleton]
    simp only [Hierarchy.forall_mem_all_iff]
  text drawn hdrawn := by rw [text_of_redrawAll hdrawn, Hierarchy.all_eq_range]
  row k := Hierarchy.exists_outlineRow _ o.boxes k
  lines drawn hdrawn := by
    rw [text_of_redrawAll hdrawn, Hierarchy.all_eq_range, ← Hierarchy.forall_outlineRow_iff]
    have hrows := exists_hasLines_iff
      ((List.range (Hierarchy.ofLayer l primary).size).map
        ((Hierarchy.ofLayer l primary).outlineRow o.boxes))
    rw [List.length_map, List.length_range, List.forall_mem_map] at hrows
    exact hrows.trans (forall_congr' fun k => imp_congr_left List.mem_range)
  rows drawn hdrawn hkeeps := by
    have hfree := Hierarchy.forall_outlineRow_iff.mpr hkeeps
    rw [text_of_redrawAll hdrawn, Hierarchy.all_eq_range]
    exact ⟨rfl, List.forall_mem_map.mpr fun k hk => hfree k (List.mem_range.mp hk)⟩

end Outline

namespace Hierarchy

/-- A top layer with a style, in the name of which there is a line feed. -/
def brokenStyle : Layer := .leaf { styles := [{ name := "x\ny" }] }

/-- One layer with such a style takes two lines. -/
theorem outline_brokenStyle : (ofLayer brokenStyle .standard).size = 1 ∧
    ∃ drawn, ({} : Outline).redrawAll [ofLayer brokenStyle .standard] = .ok drawn ∧
      drawn.text = "(unnamed) [top] styles=x\ny\n" ∧
      ¬ ∃ ls, ls.length = 1 ∧ HasLines drawn.text ls := by
  refine ⟨by decide, ⟨false, "(unnamed) [top] styles=x\ny\n"⟩, by decide +kernel, rfl, ?_⟩
  rintro ⟨ls, hlength, hls⟩
  have hfeeds : lineFeeds "(unnamed) [top] styles=x\ny\n" = 2 := by decide
  have htwo : 2 = ls.length := hfeeds.symm.trans hls.lineFeeds_eq
  omega

end Hierarchy

end MapLayers
