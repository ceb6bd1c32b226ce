import MapLayers.Proofs.Flat.Outcome
import MapLayers.Proofs.Guarded.Fault

/-!
# Nesting, guarded

The guarded run reads the references of a flat list and enters every entry in the row of its parent,
one by one; it sweeps the rows, and assembles the layers, taking the attributes of each entry out of
its slot.  There are three things that could go wrong.

* **A row that is not there.**  Rows are only entered for positions that are found in the list
  (`Entry.lt_length_of_parentPosition`), and there is a row for each of these
  (`Entry.referencesGuarded_eq_ok`).
* **A loop that is not done.**  The sweep visits a position once only, and so ends within its bound
  (`Sweep.runGuarded_eq_ok`); the loop that assembles a layer takes as many steps as it does without
  the guards.
* **A slot that is empty.**  The sprouts of the forest that hangs from the roots have no position
  twice, so the slots of one are full when it is assembled, and those of the others still are
  afterwards (`Slots.Full`, `Takes.exists_guarded`, `Sprout.assembleGuarded_eq_ok`).

Nothing is assembled when the references fail or a cycle is found, since an error is given before.
In all, nesting a flat list comes to what it should, be it layers or an error
(`Entry.nestGuarded_eq_ok`).
-/

set_option autoImplicit false

namespace MapLayers

open Guarded

/-! ## References

Every entry looks its parent up in the list and is entered in the row of that parent.  What is found
is a position of the list, and the rows are as many as the entries. -/

namespace Entry

/-- How errors refer to the entry at a position. -/
def displayNameGuarded (es : List Entry) (i : Nat) : Guarded String :=
  return (← read es.toArray i).displayName i

/-- The position of the parent of an entry, from the positions under each name. -/
def parentPositionGuarded (es : List Entry) (named : String → List Nat) (i : Nat) (e : Entry) :
    Guarded (Except FlatError (Option Nat)) :=
  match e.parent with
  | none => .ok (.ok none)
  | some parent =>
    match named parent with
    | [] => return .error (.dangling (← displayNameGuarded es i) parent)
    | [p] => .ok (.ok (some p))
    | _ :: _ :: _ => .ok (.error (.ambiguous parent))

/-- Enter a position in the row of its parent. -/
def enterGuarded (table : Array (List Nat)) (i : Nat) : Option Nat → Guarded (Array (List Nat))
  | none => .ok table
  | some p => do
    let row ← read table p
    write table p (row ++ [i])

/-- The positions of the parents of some entries, of which the first is at `start`, and the rows
that the entries are entered in. -/
def referencesGuarded (es : List Entry) (named : String → List Nat) (start : Nat)
    (table : Array (List Nat)) : List Entry →
      Guarded (Except FlatError (List (Option Nat) × Array (List Nat)))
  | [] => .ok (.ok ([], table))
  | e :: rest => do
    match ← parentPositionGuarded es named start e with
    | .error error => return .error error
    | .ok parent =>
      let table ← enterGuarded table start parent
      let references ← referencesGuarded es named (start + 1) table rest
      return references.map fun (parents, table) => (parent :: parents, table)

variable {es : List Entry} {named : String → List Nat} {top : Option Attributes}

theorem displayNameGuarded_eq_ok {i : Nat} {e : Entry} (h : es[i]? = some e) :
    displayNameGuarded es i = .ok (e.displayName i) := by
  rw [displayNameGuarded, read_of_getElem? (by rw [List.getElem?_toArray, h])]
  rfl

theorem parentPositionGuarded_eq_ok {i : Nat} {e : Entry} (h : es[i]? = some e) :
    parentPositionGuarded es named i e = .ok (parentPosition named i e) := by
  rw [parentPositionGuarded, parentPosition]
  cases e.parent with
  | none => rfl
  | some parent =>
    dsimp only
    rcases named parent with _ | ⟨p, _ | ⟨q, qs⟩⟩
    · rw [displayNameGuarded_eq_ok h]
      rfl
    · rfl
    · rfl

theorem enterGuarded_eq_ok {table : Array (List Nat)} {i : Nat} {parent : Option Nat}
    (h : ∀ p, parent = some p → p < table.size) :
    enterGuarded table i parent = .ok (enter table i parent) := by
  cases parent with
  | none => rfl
  | some p => rw [enterGuarded, read_of_lt (h p rfl) [], ok_bind, write_of_lt (h p rfl), enter]

/-- The parent of an entry is in the list. -/
theorem lt_length_of_parentPosition {i p : Nat} {e : Entry}
    (h : parentPosition (positionsNamed 0 es) i e = .ok (some p)) : p < es.length := by
  obtain ⟨name, -, hnamed⟩ := parentPosition_eq_some_iff.mp h
  have hmem : p ∈ positionsNamed 0 es name := by
    rw [hnamed]
    exact List.mem_singleton_self p
  obtain ⟨k, e, rfl, he, -⟩ := mem_positionsNamed.mp hmem
  rw [Nat.zero_add]
  exact (List.getElem?_eq_some_iff.mp he).1

/-- **Reading the references stays within the list.** -/
theorem referencesGuarded_eq_ok (rest : List Entry) (start : Nat) (table : Array (List Nat))
    (hrest : ∀ k, rest[k]? = es[start + k]?) (hsize : table.size = es.length) :
    referencesGuarded es (positionsNamed 0 es) start table rest
      = .ok ((parentPositionsFrom (positionsNamed 0 es) start rest).map fun parents =>
          (parents, entered start table parents)) := by
  induction rest generalizing start table with
  | nil => rfl
  | cons e rest ih =>
    have he : es[start]? = some e := (hrest 0).symm
    rw [referencesGuarded, parentPositionGuarded_eq_ok he, ok_bind, parentPositionsFrom]
    cases hparent : parentPosition (positionsNamed 0 es) start e with
    | error error => rfl
    | ok parent =>
      have hlt : ∀ p, parent = some p → p < table.size := by
        rintro p rfl
        rw [hsize]
        exact lt_length_of_parentPosition hparent
      have hnext : ∀ k, rest[k]? = es[start + 1 + k]? := fun k => by
        rw [Nat.add_right_comm]
        exact hrest (k + 1)
      simp only
      rw [enterGuarded_eq_ok hlt, ok_bind, ih _ _ hnext (by rwa [size_enter]), ok_bind]
      cases parentPositionsFrom (positionsNamed 0 es) (start + 1) rest <;> rfl

end Entry

/-! ## Sweeping

A sweep reads the row of an entry that it visits and writes its mark.  Both are there when the rows
list positions of the list only, as the sweep visits what some row lists or what has no parent. -/

namespace Sweep

/-- Take steps until nothing is left to visit, at most so many. -/
def runGuarded (children : Array (List Nat)) : Nat → Sweep → Guarded Sweep
  | _, ⟨marked, []⟩ => .ok ⟨marked, []⟩
  | 0, ⟨_, _ :: _⟩ => .error .unfinished
  | n + 1, ⟨marked, i :: rest⟩ => do
    let marked ← write marked i true
    let row ← read children i
    runGuarded children n ⟨marked, row ++ rest⟩

variable {children : Array (List Nat)} {s : Sweep}

/-- **A sweep that ends stays within the table** when its rows do. -/
theorem runGuarded_eq_ok (hrows : ∀ i, ∀ c ∈ children.getD i [], c < children.size) (n : Nat)
    (hmarked : s.marked.size = children.size) (hpending : ∀ i ∈ s.pending, i < children.size)
    (hends : (run children n s).pending = []) :
    runGuarded children n s = .ok (run children n s) := by
  induction n generalizing s with
  | zero =>
    obtain ⟨marked, pending⟩ := s
    cases pending with
    | nil => rw [runGuarded]; rfl
    | cons i rest => cases hends
  | succ n ih =>
    obtain ⟨marked, pending⟩ := s
    cases pending with
    | nil => rw [runGuarded, run_nil]
    | cons i rest =>
      rw [List.forall_mem_cons] at hpending
      have hi : i < marked.size := by
        rw [show marked.size = children.size from hmarked]
        exact hpending.1
      rw [runGuarded, write_of_lt hi, ok_bind, read_of_lt hpending.1 [], ok_bind]
      refine ih ?_ ?_ hends
      · exact Array.size_setIfInBounds.trans hmarked
      · exact List.forall_mem_append.mpr ⟨hrows i, hpending.2⟩

end Sweep

/-! ## Assembling

The slot of an entry is emptied when its frame is closed.  A loop that `Takes` the slots at
different positions finds each of them full, if all were full at the start, so it does not stop. -/

namespace Frame

/-- The next child of the entry of a frame, if it has one. -/
def nextGuarded (children : Array (List Nat)) (f : Frame) : Guarded (Option Nat) :=
  return (← read children f.entry)[f.done.length]?

/-- The layer of a frame whose children are all assembled, and the slots that are left. -/
def closeGuarded (slots : Slots) (f : Frame) : Guarded (Layer × Slots) := do
  match ← read slots f.entry with
  | none => .error (.emptied f.entry)
  | some a => return (.node a f.done, ← write slots f.entry none)

end Frame

/-- Open and close frames until the first one is closed.  The row of a child is looked at when its
frame is opened. -/
def assembleFramesGuarded (children : Array (List Nat)) :
    Nat → List Frame → Slots → Guarded (Layer × Slots)
  | _, [], slots => .ok (default, slots)
  | 0, _ :: _, _ => .error .unfinished
  | n + 1, f :: frames, slots => do
    match ← f.nextGuarded children with
    | some child =>
      let _ ← read children child
      assembleFramesGuarded children n (⟨child, []⟩ :: f :: frames) slots
    | none =>
      let (layer, slots) ← f.closeGuarded slots
      match frames with
      | [] => return (layer, slots)
      | g :: frames =>
        assembleFramesGuarded children n (⟨g.entry, g.done ++ [layer]⟩ :: frames) slots

/-- Assemble the layer at a position and all below it. -/
def assembleGuarded (children : Array (List Nat)) (position : Nat) (slots : Slots) :
    Guarded (Layer × Slots) :=
  assembleFramesGuarded children (2 * slots.size + 1) [⟨position, []⟩] slots

/-- Assemble the layers at some positions, in order. -/
def assembleAllGuarded (children : Array (List Nat)) :
    List Nat → Slots → Guarded (List Layer × Slots)
  | [], slots => .ok ([], slots)
  | position :: positions, slots => do
    let (layer, slots) ← assembleGuarded children position slots
    let (layers, slots) ← assembleAllGuarded children positions slots
    return (layer :: layers, slots)

/-- The slots at some positions have not been emptied. -/
def Slots.Full (slots : Slots) (ps : List Nat) : Prop := ∀ i ∈ ps, ∃ a, slots[i]? = some (some a)

section

variable {children : Array (List Nat)} {slots : Slots} {f g : Frame} {frames : List Frame}
  {n c i : Nat} {ps qs : List Nat}

theorem Slots.Full.lt (h : slots.Full ps) (hi : i ∈ ps) : i < slots.size := by
  obtain ⟨a, ha⟩ := h i hi
  exact (Array.getElem?_eq_some_iff.mp ha).1

theorem Slots.Full.without (h : slots.Full ps) (hdisjoint : ∀ i ∈ ps, i ∉ qs) :
    (slots.without qs).Full ps := by
  intro i hi
  obtain ⟨a, ha⟩ := h i hi
  refine ⟨a, ?_⟩
  rw [Slots.without, Array.getElem?_mapIdx, ha, Option.map_some, if_neg (hdisjoint i hi)]

theorem Frame.nextGuarded_eq_ok (h : f.entry < children.size) :
    f.nextGuarded children = .ok (f.next children) := by
  rw [nextGuarded, read_of_lt h []]
  rfl

theorem Frame.closeGuarded_eq_ok (h : slots.Full [f.entry]) :
    f.closeGuarded slots = .ok (f.close slots, slots.setIfInBounds f.entry none) := by
  obtain ⟨a, ha⟩ := h f.entry (List.mem_singleton_self _)
  have hlt := h.lt (List.mem_singleton_self _)
  rw [closeGuarded, read_of_getElem? ha, ok_bind]
  simp only
  rw [write_of_lt hlt, close, Array.getD_eq_getD_getElem?, ha]
  rfl

theorem assembleFramesGuarded_open (hentry : f.entry < children.size)
    (hnext : f.next children = some c) (hc : c < children.size) :
    assembleFramesGuarded children (n + 1) (f :: frames) slots
      = assembleFramesGuarded children n (⟨c, []⟩ :: f :: frames) slots := by
  rw [assembleFramesGuarded, Frame.nextGuarded_eq_ok hentry, ok_bind, hnext]
  simp only
  rw [read_of_lt hc [], ok_bind]

theorem assembleFramesGuarded_close (hentry : f.entry < children.size)
    (hnext : f.next children = none) (hfull : slots.Full [f.entry]) :
    assembleFramesGuarded children (n + 1) (f :: g :: frames) slots
      = assembleFramesGuarded children n (⟨g.entry, g.done ++ [f.close slots]⟩ :: frames)
          (slots.setIfInBounds f.entry none) := by
  rw [assembleFramesGuarded, Frame.nextGuarded_eq_ok hentry, ok_bind, hnext]
  simp only
  rw [Frame.closeGuarded_eq_ok hfull, ok_bind]

theorem assembleFramesGuarded_last (hentry : f.entry < children.size)
    (hnext : f.next children = none) (hfull : slots.Full [f.entry]) :
    assembleFramesGuarded children (n + 1) [f] slots
      = .ok (f.close slots, slots.setIfInBounds f.entry none) := by
  rw [assembleFramesGuarded, Frame.nextGuarded_eq_ok hentry, ok_bind, hnext]
  simp only
  rw [Frame.closeGuarded_eq_ok hfull, ok_bind]
  rfl

theorem Slots.full_append : slots.Full (ps ++ qs) ↔ slots.Full ps ∧ slots.Full qs :=
  List.forall_mem_append

theorem Slots.full_cons : slots.Full (i :: ps) ↔ slots.Full [i] ∧ slots.Full ps := by
  rw [← Slots.full_append, List.singleton_append]

/-- **A loop that takes different slots, all of them full, comes to its end**, in as many steps as
without the guards. -/
theorem Takes.exists_guarded {r : Layer × Slots} (h : Takes children ps frames slots r) :
    ps.Nodup → slots.Full ps → (∀ i ∈ ps, i < children.size) →
      ∃ n, n + frames.length = 2 * ps.length ∧
        ∀ bound, n ≤ bound → assembleFramesGuarded children bound frames slots = .ok r := by
  induction h with
  | last hnext =>
    intro _ hfull hlt
    refine ⟨1, rfl, fun bound hbound => ?_⟩
    obtain ⟨b, rfl⟩ := Nat.exists_eq_add_of_le' hbound
    exact assembleFramesGuarded_last (hlt _ (List.mem_singleton_self _)) hnext hfull
  | opened hnext hrest ih =>
    intro hnd hfull hlt
    obtain ⟨n, hn, hend⟩ := ih hnd hfull hlt
    -- a frame that is open will be closed, so its position is one of those that are taken
    have hentries := hrest.entry_mem
    rw [List.forall_mem_cons, List.forall_mem_cons] at hentries
    refine ⟨n + 1, ?_, fun bound hbound => ?_⟩
    · simp only [List.length_cons] at hn ⊢
      omega
    · obtain ⟨b, rfl⟩ := Nat.exists_eq_add_of_le' (Nat.le_trans (Nat.le_add_left 1 n) hbound)
      rw [assembleFramesGuarded_open (hlt _ hentries.2.1) hnext (hlt _ hentries.1)]
      exact hend b (by omega)
  | @handed ps f g frames slots r hnext _ ih =>
    intro hnd hfull hlt
    rw [List.nodup_cons] at hnd
    rw [Slots.full_cons] at hfull
    rw [List.forall_mem_cons] at hlt
    have hrest : Slots.Full (slots.setIfInBounds f.entry none) ps := by
      rw [Slots.setIfInBounds_eq_without]
      exact hfull.2.without fun i hi hmem => hnd.1 (List.mem_singleton.mp hmem ▸ hi)
    obtain ⟨n, hn, hend⟩ := ih hnd.2 hrest hlt.2
    refine ⟨n + 1, ?_, fun bound hbound => ?_⟩
    · simp only [List.length_cons] at hn ⊢
      omega
    · obtain ⟨b, rfl⟩ := Nat.exists_eq_add_of_le' (Nat.le_trans (Nat.le_add_left 1 n) hbound)
      rw [assembleFramesGuarded_close hlt.1 hnext hfull.1]
      exact hend b (by omega)

end

namespace Sprout

variable {children : Array (List Nat)} {t : Sprout} {ts : List Sprout} {slots : Slots}

/-- A sprout without a position twice is no larger than the slots, when none of its slots has been
emptied. -/
theorem length_positions_le (hnd : t.positions.Nodup) (hfull : slots.Full t.positions) :
    t.positions.length ≤ slots.size :=
  length_le_of_nodup hnd fun _ hi => hfull.lt hi

/-- **Assembling a sprout empties each of its slots once.** -/
theorem assembleGuarded_eq_ok (hfollows : t.Follows (children.getD · [])) (hnd : t.positions.Nodup)
    (hfull : slots.Full t.positions) (hlt : ∀ i ∈ t.positions, i < children.size) :
    assembleGuarded children t.position slots = .ok (assemble children t.position slots) := by
  have hlen := length_positions_le hnd hfull
  have hperm := perm_bottomUp t
  have htakes : Takes children t.bottomUp [⟨t.position, []⟩] slots _ := takes hfollows hnd
  obtain ⟨n, hn, hend⟩ := htakes.exists_guarded (hperm.nodup_iff.mpr hnd)
    (fun i hi => hfull i (hperm.mem_iff.mp hi)) (fun i hi => hlt i (hperm.mem_iff.mp hi))
  rw [hperm.length_eq] at hn
  rw [assemble_eq hfollows hnd hlen]
  exact hend _ (by omega)

theorem assembleAllGuarded_eq_ok (hfollow : FollowAll (children.getD · []) ts)
    (hnd : (positionsAll ts).Nodup) (hfull : slots.Full (positionsAll ts))
    (hlt : ∀ i ∈ positionsAll ts, i < children.size) :
    assembleAllGuarded children (ts.map position) slots
      = .ok (assembleAll children (ts.map position) slots) := by
  induction ts generalizing slots with
  | nil => rfl
  | cons t ts ih =>
    rw [positionsAll, List.nodup_append] at hnd
    obtain ⟨hnd, hnds, hdisjoint⟩ := hnd
    rw [positionsAll, Slots.full_append] at hfull
    rw [positionsAll, List.forall_mem_append] at hlt
    have hrest : (Slots.without slots t.positions).Full (positionsAll ts) :=
      hfull.2.without fun i hi hmem => hdisjoint i hmem i hi rfl
    rw [List.map_cons, assembleAllGuarded, assembleAll,
      assembleGuarded_eq_ok hfollow.1 hnd hfull.1 hlt.1,
      assemble_eq hfollow.1 hnd (length_positions_le hnd hfull.1), ok_bind]
    simp only
    rw [ih hfollow.2 hnds hrest hlt.2]
    rfl

end Sprout

/-! ## The whole list

The three parts in the order in which nesting calls them, up to the layers in either form. -/

namespace Entry

/-- The layer that entries with the given rows and roots make. -/
def gatherGuarded (es : List Entry) (table : Array (List Nat)) (top : Option Attributes) :
    List Nat → Guarded Layer
  | [root] => return (← assembleGuarded table root (slots es)).1
  | roots => return .node (madeUpTop top) (← assembleAllGuarded table roots (slots es)).1

/-- The nested form of a flat list. -/
def nestGuarded (top : Option Attributes) (es : List Entry) : Guarded (Except FlatError Layer) :=
  if es.isEmpty then .ok (.error .empty)
  else do
    match ← referencesGuarded es (positionsIn (nameTable es)) 0
        (Array.replicate es.length []) es with
    | .error error => return .error error
    | .ok (parents, table) =>
      let roots := positionsUnder parents none
      if roots.isEmpty then return .error .noRoot
      else
        let sweep ← Sweep.runGuarded table es.length (.start es.length roots)
        match sweep.firstUnmarked with
        | some i => return .error (.cycle (← displayNameGuarded es i))
        | none => return .ok (← gatherGuarded es table top roots)

variable {es : List Entry} {parents : List (Option Nat)}

theorem lt_length_of_mem_childrenOf {i c : Nat} (h : c ∈ childrenOf parents i) :
    c < parents.length :=
  (List.getElem?_eq_some_iff.mp (mem_childrenOf.mp h).2).1

theorem sweepGuarded_eq_ok (parents : List (Option Nat)) :
    Sweep.runGuarded (childTable parents) parents.length
        (.start parents.length (positionsUnder parents none))
      = .ok (Sweep.ofParents parents) := by
  refine Sweep.runGuarded_eq_ok (fun i c hc => ?_) _ ?_ (fun i hi => ?_) (loopsEnd parents).sweep
  · rw [size_childTable]
    exact lt_length_of_mem_childrenOf hc
  · rw [size_childTable]
    exact Array.size_replicate
  · rw [size_childTable]
    exact (List.getElem?_eq_some_iff.mp (mem_positionsUnder.mp hi)).1

theorem full_slots {ps : List Nat} (h : ∀ i ∈ ps, i < es.length) : (slots es).Full ps := by
  intro i hi
  refine ⟨(es.get ⟨i, h i hi⟩).attributes, ?_⟩
  simp [slots, h i hi]

/-- **Gathering a list of which every entry hangs below a root** empties no slot twice. -/
theorem gatherGuarded_eq_ok (top : Option Attributes) (hlen : parents.length = es.length) :
    gatherGuarded es (childTable parents) top (positionsUnder parents none)
      = .ok (gather es parents top (positionsUnder parents none)) := by
  obtain ⟨ts, h⟩ := exists_isForest parents
  have hlt : ∀ i ∈ Sprout.positionsAll ts, i < parents.length := fun i hi =>
    (h.mem_iff.mp hi).lt_length
  have hfull : (slots es).Full (Sprout.positionsAll ts) := full_slots fun i hi => hlen ▸ hlt i hi
  have hnd := h.nodup
  rw [← size_childTable] at hlt
  have hall := Sprout.assembleAllGuarded_eq_ok h.follow hnd hfull hlt
  rw [← h.starts]
  rcases ts with _ | ⟨t, _ | ⟨u, us⟩⟩
  · rfl
  · rw [Sprout.positionsAll, Sprout.positionsAll, List.append_nil] at hfull hlt hnd
    have hone := Sprout.assembleGuarded_eq_ok h.follow.1 hnd hfull hlt
    rw [List.map_cons, List.map_nil, gatherGuarded, hone]
    rfl
  · rw [List.map_cons, List.map_cons] at hall ⊢
    rw [gatherGuarded, hall]
    · rfl
    · simp

/-- **Nesting a flat list stays within the list and its slots.** -/
theorem nestGuarded_eq_ok (top : Option Attributes) (es : List Entry) :
    nestGuarded top es = .ok (nest top es) := by
  by_cases hne : es = []
  · subst hne
    rfl
  have hreferences : referencesGuarded es (positionsNamed 0 es) 0 (Array.replicate es.length []) es
      = .ok ((parentPositions es).map fun parents =>
          (parents, entered 0 (Array.replicate es.length []) parents)) := by
    rw [parentPositions_eq]
    exact referencesGuarded_eq_ok es 0 _ (fun k => by rw [Nat.zero_add]) Array.size_replicate
  rw [nestGuarded, if_neg (by simpa using hne), positionsIn_nameTable, hreferences, ok_bind]
  cases hparents : parentPositions es with
  | error error =>
    rw [nest_of_error hne hparents]
    rfl
  | ok parents =>
    have hlen := length_parents hparents
    have hsweep := sweepGuarded_eq_ok parents
    rw [hlen] at hsweep
    rw [nest_of_ok hne hparents, Except.map, ← hlen, ← childTable, hlen]
    dsimp only
    by_cases hroots : (positionsUnder parents none).isEmpty = true
    · rw [if_pos hroots, if_pos hroots]
      rfl
    · rw [if_neg hroots, if_neg hroots, hsweep, ok_bind]
      cases hmarked : (Sweep.ofParents parents).firstUnmarked with
      | none =>
        dsimp only
        rw [gatherGuarded_eq_ok top hlen]
        rfl
      | some i =>
        have hi : i < es.length := hlen ▸ (firstUnmarked_eq_some_iff.mp hmarked).1
        have he : es[i]? = some (es.getD i {}) := by
          rw [List.getD_eq_getElem?_getD, List.getElem?_eq_getElem hi]
          rfl
        dsimp only
        rw [displayNameGuarded_eq_ok he]
        rfl

end Entry

/-- The nested form of layers in either form. -/
def LayerInput.nestGuarded (top : Option Attributes) :
    LayerInput → Guarded (Except FlatError Layer)
  | .flat entries => Entry.nestGuarded top entries
  | .nested layer => .ok (.ok layer)

theorem LayerInput.nestGuarded_eq_ok (top : Option Attributes) (layers : LayerInput) :
    layers.nestGuarded top = .ok (layers.nest top) := by
  cases layers with
  | flat entries => exact Entry.nestGuarded_eq_ok top entries
  | nested layer => rfl

end MapLayers
