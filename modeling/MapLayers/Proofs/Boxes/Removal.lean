import Mathlib.Data.List.Sort
import MapLayers.Proofs.Boxes.Inheritance
import MapLayers.Proofs.Layout.Relabelling

/-!
# Taking away an inherited box

A layer that declares, for some system, the very box that it would inherit can do without it.  What
changes is where the box of the layer comes from, and with it where the boxes come from that are
passed on below the layer.  What stays is that there is a box, that it is declared somewhere, and
its rectangle (`Hierarchy.alike_withoutBox`).  Boxes in other systems do not change at all
(`Hierarchy.effectiveBox_withoutBox_of_ne`), and the same systems are referenced
(`Hierarchy.referenced_withoutBox`), since the box is declared above as well.

Rectangles are compared numerically, so the two boxes may differ in the sign of a zero.  This is why
the boxes are *alike* (`EffectiveBox.Alike`) and not equal, and why equality of rectangles has to be
an equivalence for the argument to pass from a layer to what is below it.  For numbers it is one:
what is no number at all, and would not be equal to itself, is not among them.

The induction is on positions again.  A layer that is not the one in question inherits, or declares,
what it did before, up to what has happened above.  At the layer itself the inherited box takes the
place of the declared one.
-/

set_option autoImplicit false

namespace MapLayers

/-- Equality of rectangles is an equivalence, since that of numbers is. -/
instance : EquivBEq Rect where
  rfl := by simp [Rect.beq_eq]
  symm h := by
    simp only [Rect.beq_eq, Bool.and_eq_true] at h ⊢
    exact ⟨BEq.symm h.1, BEq.symm h.2.1, BEq.symm h.2.2.1, BEq.symm h.2.2.2⟩
  trans h h' := by
    simp only [Rect.beq_eq, Bool.and_eq_true] at h h' ⊢
    exact ⟨BEq.trans h.1 h'.1, BEq.trans h.2.1 h'.2.1, BEq.trans h.2.2.1 h'.2.2.1,
      BEq.trans h.2.2.2 h'.2.2.2⟩

instance : Std.Irrefl (α := Crs) (· < ·) := ⟨Crs.lt_irrefl⟩

instance : Std.Antisymm (α := Crs) (· < ·) :=
  ⟨fun a _ h h' => absurd (Crs.lt_trans h h') (Crs.lt_irrefl a)⟩

/-! ## Boxes that are as good as each other

Being alike is kept by everything that is done with boxes: passing them on, preferring a declared
one, and falling back on a standard extent.  It has to be said of boxes that may not be there, since
a layer that has no box before must have none afterwards. -/

/-- The second box has the rectangle of the first, and is declared somewhere if the first is. -/
structure EffectiveBox.Alike (e e' : EffectiveBox) : Prop where
  rect : (e'.rect == e.rect) = true
  explicit : e'.isExplicit = e.isExplicit

/-- There are boxes that are alike, or there are none. -/
abbrev AlikeBoxes (o o' : Option EffectiveBox) : Prop := Option.Rel EffectiveBox.Alike o o'

namespace AlikeBoxes

variable {o o' x s : Option EffectiveBox}

theorem refl (o : Option EffectiveBox) : AlikeBoxes o o := by
  cases o with
  | none => exact .none
  | some e => exact .some ⟨BEq.rfl, rfl⟩

/-- What is passed on of boxes that are alike is alike. -/
theorem passedOn (h : AlikeBoxes o o') (p : Nat) :
    AlikeBoxes (o.bind (passedOn p)) (o'.bind (MapLayers.passedOn p)) := by
  cases h with
  | none => exact .none
  | @some e e' h =>
    obtain ⟨r, origin⟩ := e
    obtain ⟨r', origin'⟩ := e'
    have hrect := h.rect
    have hexplicit := h.explicit
    cases origin <;> cases origin' <;>
      first
      | exact .none
      | exact .some ⟨hrect, rfl⟩
      | exact absurd hexplicit (by simp [EffectiveBox.isExplicit])

theorem or_or (h : AlikeBoxes o o') : AlikeBoxes (x.or (o.or s)) (x.or (o'.or s)) := by
  cases x with
  | some e => exact refl _
  | none =>
    cases h with
    | none => exact refl _
    | some h => exact .some h

theorem explicit (h : AlikeBoxes o o') :
    o'.map EffectiveBox.isExplicit = o.map EffectiveBox.isExplicit := by
  cases h with
  | none => rfl
  | some h => rw [Option.map_some, Option.map_some, h.explicit]

end AlikeBoxes

/-! ## Taking a box away

All boxes that the layer declares for the system are dropped.  `Hierarchy.Repeats` is the situation
in which this does no harm: the first of them equals the box that the layer would inherit. -/

/-- The attributes, without the boxes declared for a system. -/
def Attributes.withoutBox (a : Attributes) (c : Crs) : Attributes :=
  { a with boxes := a.boxes.filter (·.crs ≠ c) }

/-- The tree in which the layer at a position, counted in pre-order, does not declare boxes for a
system. -/
def Layer.withoutBox (l : Layer) (k : Nat) (c : Crs) : Layer :=
  l.relabel (fun j a => if j = k then a.withoutBox c else a) 0

namespace Attributes

variable {a : Attributes} {c d : Crs}

theorem declaredBox_withoutBox_self : (a.withoutBox c).declaredBox c = none := by
  rw [declaredBox_eq_none_iff]
  intro b hb
  simpa using (List.mem_filter.mp hb).2

theorem box?_withoutBox_of_ne (h : d ≠ c) : (a.withoutBox c).box? d = a.box? d := by
  rw [box?, box?, withoutBox, List.find?_filter]
  congr 1
  funext b
  by_cases hb : b.crs = d
  · simp [hb, h]
  · simp [hb]

end Attributes

namespace Hierarchy

/-- The first box that a layer declares for a system equals the one that it would inherit. -/
structure Repeats (h : Hierarchy) (k : Nat) (c : Crs) (b : DeclaredBox) (e : EffectiveBox) :
    Prop where
  box : (h.attributes k).box? c = some b
  inherited : h.inheritedBox k c = some e
  rect : (e.rect == b.rect) = true

variable {l : Layer} {primary c d : Crs} {j k : Nat} {b : DeclaredBox} {e : EffectiveBox}

theorem sameLinks_withoutBox : (ofLayer l primary).toArena.SameLinks
    (ofLayer (l.withoutBox k c) primary).toArena := Arena.sameLinks_relabel _ l

theorem size_withoutBox :
    (ofLayer (l.withoutBox k c) primary).size = (ofLayer l primary).size :=
  sameLinks_withoutBox.size

theorem parent_withoutBox (j : Nat) :
    (ofLayer (l.withoutBox k c) primary).parent j = (ofLayer l primary).parent j :=
  congrFun sameLinks_withoutBox.parent j

theorem role_withoutBox (j : Nat) :
    (ofLayer (l.withoutBox k c) primary).role j = (ofLayer l primary).role j :=
  congrFun sameLinks_withoutBox.role_eq j

/-- Only the layer that loses its box has other attributes. -/
theorem attributes_withoutBox (j : Nat) : (ofLayer (l.withoutBox k c) primary).attributes j
    = if j = k then ((ofLayer l primary).attributes j).withoutBox c
      else (ofLayer l primary).attributes j := by
  by_cases hj : j < (ofLayer l primary).size
  · exact Arena.attributes_relabel _ l hj
  · have hge := Nat.le_of_not_lt hj
    have hge' : (ofLayer (l.withoutBox k c) primary).size ≤ j := by
      rwa [size_withoutBox]
    rw [Arena.attributes_of_size_le hge, Arena.attributes_of_size_le hge']
    split <;> rfl

theorem effectiveBox_of_size_le (h : (ofLayer l primary).size ≤ j) :
    (ofLayer l primary).effectiveBox j c = none := by
  have hsize : (ofLayer l primary).boxes.size ≤ j := by
    rw [boxes_eq, size_tablesOf, List.length_map, Place.length_all]
    rwa [show (ofLayer l primary).size = l.count from Arena.size_ofLayer l] at h
  rw [effectiveBox, boxTable, Array.getD_eq_getD_getElem?, Array.getElem?_eq_none hsize]
  rfl

theorem inheritedBox_withoutBox_eq (j : Nat) (d : Crs) :
    (ofLayer (l.withoutBox k c) primary).inheritedBox j d
      = ((ofLayer l primary).parent j).bind fun p =>
          ((ofLayer (l.withoutBox k c) primary).effectiveBox p d).bind (passedOn p) := by
  rw [inheritedBox_eq, parent_withoutBox]

/-! ## Other systems -/

theorem box?_withoutBox_of_ne (hd : d ≠ c) (j : Nat) :
    ((ofLayer (l.withoutBox k c) primary).attributes j).box? d
      = ((ofLayer l primary).attributes j).box? d := by
  rw [attributes_withoutBox]
  split
  · exact Attributes.box?_withoutBox_of_ne hd
  · rfl

theorem inheritedBox_withoutBox_of_ne (hd : d ≠ c) (j : Nat) :
    (ofLayer (l.withoutBox k c) primary).inheritedBox j d = (ofLayer l primary).inheritedBox j d :=
  inheritedBox_congr sameLinks_withoutBox fun a _ => box?_withoutBox_of_ne hd a

/-- **Nothing changes in other systems.** -/
theorem effectiveBox_withoutBox_of_ne (hd : d ≠ c) (j : Nat) :
    (ofLayer (l.withoutBox k c) primary).effectiveBox j d
      = (ofLayer l primary).effectiveBox j d := by
  by_cases hj : j < (ofLayer l primary).size
  · rw [effectiveBox_of_lt (by rwa [size_withoutBox]), effectiveBox_of_lt hj,
      inheritedBox_withoutBox_of_ne hd, Attributes.declaredBox, Attributes.declaredBox,
      box?_withoutBox_of_ne hd]
  · have hge := Nat.le_of_not_lt hj
    rw [effectiveBox_of_size_le hge, effectiveBox_of_size_le (by rwa [size_withoutBox])]

/-! ## The system of the box -/

section

variable (h : (ofLayer l primary).Repeats k c b e)

include h

/-- **All boxes stay as good as they were** when one that equals the inherited one is taken away. -/
theorem alike_withoutBox (j : Nat) (d : Crs) : AlikeBoxes ((ofLayer l primary).effectiveBox j d)
    ((ofLayer (l.withoutBox k c) primary).effectiveBox j d) := by
  by_cases hd : d = c
  swap
  · rw [effectiveBox_withoutBox_of_ne hd]
    exact .refl _
  subst hd
  induction j using Nat.strongRecOn with
  | ind j ih =>
    by_cases hj : j < (ofLayer l primary).size
    swap
    · have hge := Nat.le_of_not_lt hj
      rw [effectiveBox_of_size_le hge, effectiveBox_of_size_le (by rwa [size_withoutBox])]
      exact .none
    -- parents come first, so what is passed on to the layer is alike already
    have hinherited : AlikeBoxes ((ofLayer l primary).inheritedBox j d)
        ((ofLayer (l.withoutBox k d) primary).inheritedBox j d) := by
      rw [inheritedBox_withoutBox_eq, inheritedBox_eq]
      cases hp : (ofLayer l primary).parent j with
      | none => exact .none
      | some p => exact (ih p (parent_lt hp)).passedOn p
    have heffective : (ofLayer (l.withoutBox k d) primary).effectiveBox j d = _ :=
      effectiveBox_of_lt (by rwa [size_withoutBox]) d
    rw [heffective, attributes_withoutBox]
    by_cases hjk : j = k
    · -- the layer now has the box that it inherits
      subst hjk
      obtain ⟨a, b', -, -, rfl⟩ := (inheritedBox_eq_some_iff d e j).mp h.inherited
      rw [h.inherited] at hinherited
      rw [if_pos rfl, effectiveBox_of_box? hj h.box, Attributes.declaredBox_withoutBox_self,
        Option.none_or]
      generalize (ofLayer (l.withoutBox j d) primary).inheritedBox j d = o' at hinherited
      cases hinherited with
      | some halike => exact .some ⟨BEq.trans halike.rect h.rect, halike.explicit⟩
    · rw [if_neg hjk, effectiveBox_of_lt hj]
      exact hinherited.or_or

theorem alike_inheritedBox_withoutBox (j : Nat) (d : Crs) :
    AlikeBoxes ((ofLayer l primary).inheritedBox j d)
      ((ofLayer (l.withoutBox k c) primary).inheritedBox j d) := by
  rw [inheritedBox_withoutBox_eq, inheritedBox_eq]
  cases (ofLayer l primary).parent j with
  | none => exact .none
  | some p => exact (alike_withoutBox h p d).passedOn p

end

/-! ## Referenced systems

The box is declared by an ancestor as well, so its system is referenced without it.  For this the
ancestor has to be another layer than the one that loses the box, which it is, as it stands before
it. -/

/-- The referenced systems, by position. -/
theorem mem_referenced_iff_declares : d ∈ (ofLayer l primary).referenced ↔
    d = primary ∨ ∃ j, (ofLayer l primary).Declares d j := by
  rw [mem_referenced_iff]
  refine or_congr_right ⟨?_, ?_⟩
  · rintro ⟨q, hq, b, hb, rfl⟩
    refine ⟨q.position, b, ?_, rfl⟩
    have ha : (ofLayer l primary).attributes q.position = q.layer.attributes :=
      Arena.attributes_eq hq
    rwa [ha]
  · rintro ⟨j, b, hb, rfl⟩
    by_cases hj : j < (ofLayer l primary).size
    · obtain ⟨q, hq, rfl⟩ := Arena.exists_place hj
      have ha : (ofLayer l primary).attributes q.position = q.layer.attributes :=
        Arena.attributes_eq hq
      rw [ha] at hb
      exact ⟨q, hq, b, hb, rfl⟩
    · rw [Arena.attributes_of_size_le (Nat.le_of_not_lt hj)] at hb
      cases hb

theorem declares_withoutBox_iff : (ofLayer (l.withoutBox k c) primary).Declares d j ↔
    (ofLayer l primary).Declares d j ∧ ¬ (j = k ∧ d = c) := by
  rw [Declares, Declares, attributes_withoutBox]
  by_cases hjk : j = k
  · simp only [hjk, if_true, Attributes.withoutBox, List.mem_filter, true_and]
    refine ⟨?_, ?_⟩
    · rintro ⟨b, ⟨hb, hne⟩, rfl⟩
      exact ⟨⟨b, hb, rfl⟩, by simpa using hne⟩
    · rintro ⟨⟨b, hb, rfl⟩, hne⟩
      exact ⟨b, ⟨hb, by simpa using hne⟩, rfl⟩
  · simp [hjk]

/-- **The same systems are referenced**, since the box is declared above as well. -/
theorem referenced_withoutBox (h : (ofLayer l primary).Repeats k c b e) :
    (ofLayer (l.withoutBox k c) primary).referenced = (ofLayer l primary).referenced := by
  obtain ⟨a, -, hnearest, -, -⟩ := (inheritedBox_eq_some_iff c e k).mp h.inherited
  have hak : a < k := hnearest.above.lt fun _ _ => parent_lt
  refine (Arena.pairwise_referenced _ _).eq_of_mem_iff (Arena.pairwise_referenced _ _) fun d => ?_
  show d ∈ (ofLayer (l.withoutBox k c) primary).referenced ↔ d ∈ (ofLayer l primary).referenced
  rw [mem_referenced_iff_declares, mem_referenced_iff_declares]
  simp only [declares_withoutBox_iff]
  refine or_congr_right ⟨fun ⟨j, hj, _⟩ => ⟨j, hj⟩, ?_⟩
  rintro ⟨j, hj⟩
  by_cases hdc : d = c
  · subst hdc
    exact ⟨a, hnearest.holds, fun h => by omega⟩
  · exact ⟨j, hj, fun h => hdc h.2⟩

end Hierarchy

end MapLayers
