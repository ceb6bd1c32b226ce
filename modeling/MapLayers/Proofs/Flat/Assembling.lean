import MapLayers.Flat.Assembly
import MapLayers.Proofs.Flat.Sprouts

/-!
# Assembling a sprout

The loop that opens and closes frames is described without a bound on its steps by two relations:
the frames `Closes` after so many steps, with a layer and the slots that are left, and on the way
the loop `Takes` what is in the slots at some positions, one after the other.  Every position is
opened once and closed once, so the positions that are taken give the number of steps
(`Takes.exists_closes`), and a bound that is not below it makes no difference
(`Closes.assembleFrames_eq`).

Where the table of children is followed by a sprout in which no position is twice, the loop ends
with the layers of the sprout, having taken what is in the slots of the sprout from the bottom up
(`Sprout.takes`).  The proof goes along the sprout, with any frames beneath: a frame whose next
child is the start of a sprout gets the layer of that sprout (`Sprout.takes_of_next`), and a frame
that lacks the layers of several gets them one by one (`Sprout.takes_of_rest`).  That no position is
twice comes in where a slot is read: what other sprouts have emptied is not what this one looks for.

The bound of `assemble` is never reached, so `assemble` is the plain recursion over the sprout
(`Sprout.assemble_eq`).
-/

set_option autoImplicit false

namespace MapLayers

/-! ## Slots

Emptying some slots, and what is found in the others.  The order in which they are emptied makes no
difference, so a list of positions is enough to say which slots are left. -/

namespace Slots

variable {slots : Slots} {ps qs : List Nat} {k : Nat}

/-- What is found in a slot, which is nothing but defaults in an empty one. -/
def found (slots : Slots) (k : Nat) : Attributes := (slots.getD k none).getD {}

/-- The slots, with those at some positions emptied. -/
def without (slots : Slots) (ps : List Nat) : Slots :=
  slots.mapIdx fun k a => if k ∈ ps then none else a

@[simp] theorem size_without : (without slots ps).size = slots.size := Array.size_mapIdx

theorem getD_without (slots : Slots) (ps : List Nat) (k : Nat) :
    (without slots ps).getD k none = if k ∈ ps then none else slots.getD k none := by
  rw [without, Array.getD_eq_getD_getElem?, Array.getElem?_mapIdx, Array.getD_eq_getD_getElem?]
  cases slots[k]? with
  | none => simp
  | some a => simp

theorem found_without (h : k ∉ ps) : found (without slots ps) k = found slots k := by
  rw [found, found, getD_without, if_neg h]

theorem without_nil : without slots [] = slots := by
  refine Array.ext (by simp) fun k _ _ => ?_
  simp [without]

theorem without_append : without (without slots ps) qs = without slots (ps ++ qs) := by
  refine Array.ext (by simp) fun k h _ => ?_
  simp only [without, Array.getElem_mapIdx, List.mem_append]
  by_cases hp : k ∈ ps <;> simp [hp]

theorem setIfInBounds_without :
    (without slots ps).setIfInBounds k none = without slots (k :: ps) := by
  refine Array.ext (by simp) fun i h _ => ?_
  have hi : i < (without slots ps).size := by rwa [Array.size_setIfInBounds] at h
  rw [Array.getElem_setIfInBounds hi]
  simp only [without, Array.getElem_mapIdx, List.mem_cons]
  by_cases hk : k = i
  · simp [hk]
  · have hk' : ¬ i = k := fun h => hk h.symm
    simp [hk, hk']

theorem setIfInBounds_eq_without : slots.setIfInBounds k none = without slots [k] := by
  rw [← setIfInBounds_without, without_nil]

end Slots

/-! ## The loop without a bound

A step opens the next child of the topmost frame, or closes that frame.  `Closes` and `Takes` have a
constructor for each, and one for the last frame. -/

/-- Opening and closing frames comes to an end after so many steps, with the given result. -/
inductive Closes (children : Array (List Nat)) :
    Nat → List Frame → Slots → Layer × Slots → Prop
  | last {f : Frame} {slots : Slots} : f.next children = none →
    Closes children 1 [f] slots (f.close slots, slots.setIfInBounds f.entry none)
  | opened {n c : Nat} {f : Frame} {frames : List Frame} {slots : Slots} {r : Layer × Slots} :
    f.next children = some c → Closes children n (⟨c, []⟩ :: f :: frames) slots r →
      Closes children (n + 1) (f :: frames) slots r
  | handed {n : Nat} {f g : Frame} {frames : List Frame} {slots : Slots} {r : Layer × Slots} :
    f.next children = none →
      Closes children n (⟨g.entry, g.done ++ [f.close slots]⟩ :: frames)
        (slots.setIfInBounds f.entry none) r →
      Closes children (n + 1) (f :: g :: frames) slots r

/-- Opening and closing frames empties the slots at the given positions, one after the other, and
then comes to an end with the given result. -/
inductive Takes (children : Array (List Nat)) :
    List Nat → List Frame → Slots → Layer × Slots → Prop
  | last {f : Frame} {slots : Slots} : f.next children = none →
    Takes children [f.entry] [f] slots (f.close slots, slots.setIfInBounds f.entry none)
  | opened {ps : List Nat} {c : Nat} {f : Frame} {frames : List Frame} {slots : Slots}
      {r : Layer × Slots} :
    f.next children = some c → Takes children ps (⟨c, []⟩ :: f :: frames) slots r →
      Takes children ps (f :: frames) slots r
  | handed {ps : List Nat} {f g : Frame} {frames : List Frame} {slots : Slots}
      {r : Layer × Slots} :
    f.next children = none →
      Takes children ps (⟨g.entry, g.done ++ [f.close slots]⟩ :: frames)
        (slots.setIfInBounds f.entry none) r →
      Takes children (f.entry :: ps) (f :: g :: frames) slots r

variable {children : Array (List Nat)} {slots : Slots} {frames : List Frame} {r : Layer × Slots}
  {n : Nat} {ps : List Nat}

/-- A bound that is not below the number of steps makes no difference. -/
theorem Closes.assembleFrames_eq (h : Closes children n frames slots r) :
    ∀ bound, n ≤ bound → assembleFrames children bound frames slots = r := by
  induction h with
  | last hnext =>
    intro bound hn
    obtain ⟨b, rfl⟩ := Nat.exists_eq_add_of_le' hn
    simp [assembleFrames, hnext]
  | opened hnext _ ih =>
    intro bound hn
    obtain ⟨b, rfl⟩ := Nat.exists_eq_add_of_le' (Nat.le_trans (Nat.le_add_left 1 _) hn)
    simp only [assembleFrames, hnext]
    exact ih b (by omega)
  | handed hnext _ ih =>
    intro bound hn
    obtain ⟨b, rfl⟩ := Nat.exists_eq_add_of_le' (Nat.le_trans (Nat.le_add_left 1 _) hn)
    simp only [assembleFrames, hnext]
    exact ih b (by omega)

namespace Takes

/-- What is taken is what the open frames are for, and more. -/
theorem entry_mem (h : Takes children ps frames slots r) : ∀ f ∈ frames, f.entry ∈ ps := by
  induction h with
  | last _ => simp
  | opened _ _ ih => exact (List.forall_mem_cons.mp ih).2
  | handed _ _ ih =>
    rw [List.forall_mem_cons] at ih
    rw [List.forall_mem_cons, List.forall_mem_cons]
    exact ⟨List.mem_cons_self, List.mem_cons_of_mem _ ih.1,
      fun f hf => List.mem_cons_of_mem _ (ih.2 f hf)⟩

/-- **Every position is opened once and closed once**, so that what is taken tells the number of
steps. -/
theorem exists_closes (h : Takes children ps frames slots r) :
    ∃ n, n + frames.length = 2 * ps.length ∧ Closes children n frames slots r := by
  induction h with
  | last hnext => exact ⟨1, rfl, .last hnext⟩
  | opened hnext _ ih =>
    obtain ⟨n, hn, hcloses⟩ := ih
    refine ⟨n + 1, ?_, .opened hnext hcloses⟩
    simp only [List.length_cons] at hn ⊢
    omega
  | handed hnext _ ih =>
    obtain ⟨n, hn, hcloses⟩ := ih
    refine ⟨n + 1, ?_, .handed hnext hcloses⟩
    simp only [List.length_cons] at hn ⊢
    omega

end Takes

namespace Sprout

variable {t : Sprout} {ts : List Sprout}

/-! ## What a sprout contributes

The statement about a sprout has any stack beneath, and any layers that the frame has assembled
already, so that it can be used for a child in the middle of its siblings. -/

theorem next_eq_some {f : Frame} {pre : List Nat}
    (h : children.getD f.entry [] = pre ++ (t :: ts).map position)
    (hdone : f.done.length = pre.length) : f.next children = some t.position := by
  rw [Frame.next, h, hdone, List.getElem?_append_right (Nat.le_refl _), Nat.sub_self]
  rfl

theorem next_eq_none {i : Nat} {attributes : Nat → Attributes}
    (h : children.getD i [] = ts.map position) :
    (⟨i, layers attributes ts⟩ : Frame).next children = none := by
  rw [Frame.next, h, layers_eq_map]
  exact List.getElem?_eq_none (by simp)

/-- Closing a frame whose children are done, which does not need their slots. -/
theorem close_layers {i : Nat} {slots : Slots} (h : i ∉ positionsAll ts) :
    (⟨i, layers (Slots.found slots) ts⟩ : Frame).close (Slots.without slots (positionsAll ts))
      = (node i ts).layer (Slots.found slots) := by
  rw [layer, ← Slots.found_without h]
  rfl

mutual

/-- A frame whose next child is the start of a sprout gets the layer of the sprout, for which the
slots of the sprout are taken from the bottom up. -/
theorem takes_of_next : ∀ (t : Sprout) {ps : List Nat} {f : Frame} {slots : Slots}
    {frames : List Frame}, t.Follows (children.getD · []) → t.positions.Nodup →
      f.next children = some t.position →
      Takes children ps (⟨f.entry, f.done ++ [t.layer (Slots.found slots)]⟩ :: frames)
        (Slots.without slots t.positions) r →
      Takes children (t.bottomUp ++ ps) (f :: frames) slots r
  | .node i ts, ps, f, slots, frames, hfollows, hnd, hnext, hrest => by
    rw [positions, List.nodup_cons] at hnd
    have hchildren : children.getD i [] = ts.map position := hfollows.1.symm
    have hdone : (⟨i, layers (Slots.found slots) ts⟩ : Frame).next children = none :=
      next_eq_none hchildren
    have hclosed : Takes children (i :: ps)
        (⟨i, layers (Slots.found slots) ts⟩ :: f :: frames)
        (Slots.without slots (positionsAll ts)) r := by
      refine .handed hdone ?_
      rw [Slots.setIfInBounds_without, close_layers hnd.1]
      exact hrest
    have hall := takes_of_rest (f := ⟨i, []⟩) ts [] hfollows.2 hnd.2 hchildren rfl hclosed
    rw [bottomUp, List.append_assoc, List.singleton_append]
    exact .opened hnext hall

/-- A frame that lacks the layers of some sprouts gets them. -/
theorem takes_of_rest : ∀ (ts : List Sprout) (pre : List Nat) {ps : List Nat} {f : Frame}
    {slots : Slots} {frames : List Frame}, FollowAll (children.getD · []) ts →
      (positionsAll ts).Nodup →
      children.getD f.entry [] = pre ++ ts.map position → f.done.length = pre.length →
      Takes children ps (⟨f.entry, f.done ++ layers (Slots.found slots) ts⟩ :: frames)
        (Slots.without slots (positionsAll ts)) r →
      Takes children (bottomUpAll ts ++ ps) (f :: frames) slots r
  | [], _, _, _, _, _, _, _, _, _, hrest => by
    rw [layers, positionsAll, Slots.without_nil, List.append_nil] at hrest
    exact hrest
  | t :: ts, pre, ps, f, slots, frames, hfollow, hnd, hchildren, hlen, hrest => by
    rw [positionsAll, List.nodup_append] at hnd
    obtain ⟨hnd, hnds, hdisjoint⟩ := hnd
    have hlayers : layers (Slots.found (Slots.without slots t.positions)) ts
        = layers (Slots.found slots) ts :=
      layers_congr ts fun i hi =>
        Slots.found_without fun hmem => hdisjoint i hmem i hi rfl
    have hpre : children.getD f.entry [] = (pre ++ [t.position]) ++ ts.map position := by
      rw [hchildren, List.map_cons, List.append_assoc, List.singleton_append]
    have hlen' : (f.done ++ [t.layer (Slots.found slots)]).length
        = (pre ++ [t.position]).length := by
      rw [List.length_append, List.length_append, hlen]
      rfl
    rw [layers, positionsAll, ← Slots.without_append, ← hlayers, List.append_cons] at hrest
    have hall := takes_of_rest (f := ⟨f.entry, f.done ++ [t.layer (Slots.found slots)]⟩) ts
      (pre ++ [t.position]) hfollow.2 hnds hpre hlen' hrest
    rw [bottomUpAll, List.append_assoc]
    exact takes_of_next t hfollow.1 hnd (next_eq_some hchildren hlen) hall

end

/-! ## Whole sprouts -/

/-- **The loop ends with the layers of the sprout**, and takes what is in its slots from the bottom
up. -/
theorem takes (hfollows : t.Follows (children.getD · [])) (hnd : t.positions.Nodup) :
    Takes children t.bottomUp [⟨t.position, []⟩] slots
      (t.layer (Slots.found slots), Slots.without slots t.positions) := by
  obtain ⟨i, ts⟩ := t
  rw [positions, List.nodup_cons] at hnd
  have hchildren : children.getD i [] = ts.map position := hfollows.1.symm
  have hdone : (⟨i, layers (Slots.found slots) ts⟩ : Frame).next children = none :=
    next_eq_none hchildren
  have hlast : Takes children [i] [⟨i, layers (Slots.found slots) ts⟩]
    (Slots.without slots (positionsAll ts)) _ := Takes.last hdone
  rw [Slots.setIfInBounds_without, close_layers hnd.1] at hlast
  exact takes_of_rest (f := ⟨i, []⟩) ts [] hfollows.2 hnd.2 hchildren rfl hlast

/-- It takes two steps for each position, but one for the first. -/
theorem closes (hfollows : t.Follows (children.getD · [])) (hnd : t.positions.Nodup) :
    Closes children (2 * t.positions.length - 1) [⟨t.position, []⟩] slots
      (t.layer (Slots.found slots), Slots.without slots t.positions) := by
  obtain ⟨n, hn, hcloses⟩ := (takes hfollows hnd).exists_closes
  rw [(perm_bottomUp t).length_eq, List.length_singleton] at hn
  rw [← hn]
  exact hcloses

/-- **Assembling is the plain recursion over a sprout.** -/
theorem assemble_eq (hfollows : t.Follows (children.getD · [])) (hnd : t.positions.Nodup)
    (hsize : t.positions.length ≤ slots.size) : assemble children t.position slots
      = (t.layer (Slots.found slots), Slots.without slots t.positions) :=
  (closes hfollows hnd).assembleFrames_eq _ (by omega)

theorem assembleAll_eq (hfollow : FollowAll (children.getD · []) ts) (hnd : (positionsAll ts).Nodup)
    (hsize : (positionsAll ts).length ≤ slots.size) :
    assembleAll children (ts.map position) slots
      = (layers (Slots.found slots) ts, Slots.without slots (positionsAll ts)) := by
  induction ts generalizing slots with
  | nil => rw [positionsAll, Slots.without_nil]; rfl
  | cons t ts ih =>
    rw [positionsAll, List.nodup_append] at hnd
    obtain ⟨hnd, hnds, hdisjoint⟩ := hnd
    rw [positionsAll, List.length_append] at hsize
    have hlayers : layers (Slots.found (Slots.without slots t.positions)) ts
        = layers (Slots.found slots) ts :=
      layers_congr ts fun i hi =>
        Slots.found_without fun hmem => hdisjoint i hmem i hi rfl
    have hrest : (positionsAll ts).length ≤ (Slots.without slots t.positions).size := by
      rw [Slots.size_without]
      omega
    rw [List.map_cons, assembleAll, assemble_eq hfollow.1 hnd (by omega), layers, positionsAll,
      ← Slots.without_append, ← hlayers]
    simp only
    rw [ih hfollow.2 hnds hrest]

end Sprout

end MapLayers
