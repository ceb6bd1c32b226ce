import MapLayers.Proofs.Guarded.Boxes
import MapLayers.Proofs.Views.Collisions

/-!
# Views, guarded

A view walks the layers and looks at those that the walk gives, at their children, or at layers that
another view lists.  All of them are layers of the arena, so no view fails.

* `Arena.dataLayersGuarded`, `Arena.layersWithLegendGuarded` and `Arena.legendsToDrawGuarded` select
  layers of the walk, and styles of those.
* `Arena.routingGuarded` and `Arena.styleCollisionsGuarded` look at the children of each layer of
  the walk.
* `Arena.legendCleanupGuarded` looks at the layers that the table of shared styles lists, which are
  children of some layer (`Arena.lt_size_of_mem_styleCollisions`).

`Arena.AnswersViews` says of an arena that each of these comes to what the plain view gives, and
`Arena.answersViews_ofLayer` that the arena of a tree is such.
-/

set_option autoImplicit false

namespace MapLayers

open Guarded

namespace Arena

/-- The data layers, in pre-order. -/
def dataLayersGuarded (t : Arena) : Guarded (List Nat) := do
  Guarded.filter (fun k => return (← t.look k Node.role) == .data) (← t.allGuarded)

/-- The layers that are visible and have a style with a legend picture, in pre-order. -/
def layersWithLegendGuarded (t : Arena) : Guarded (List Nat) := do
  Guarded.filter (fun k => t.look k fun n => n.attributes.isVisible && n.attributes.hasLegend)
    (← t.allGuarded)

/-- The styles of a layer that have no legend picture. -/
def stylesWithoutLegendGuarded (t : Arena) (k : Nat) : Guarded (List LayerStyle) := do
  let a ← t.look k Node.attributes
  return (a.styles.filter (! ·.hasLegend)).map (LayerStyle.mk k)

/-- The styles whose legend has still to be drawn. -/
def legendsToDrawGuarded (t : Arena) : Guarded (List LayerStyle) := do
  let visible ← Guarded.filter (fun k => return (← t.look k Node.attributes).isVisible)
    (← t.allGuarded)
  Guarded.flatMap t.stylesWithoutLegendGuarded visible

/-- The names of the data layers directly below a group, in order. -/
def leafNamesGuarded (t : Arena) (group : Nat) : Guarded (List String) := do
  let leaves ← Guarded.filter (fun k => return (← t.look k Node.role) == .data)
    (← t.childrenGuarded group)
  let attributes ← leaves.mapM fun k => t.look k Node.attributes
  return attributes.filterMap Attributes.name

/-- Enter the names below a group under the name of the group. -/
def enterGroupGuarded (t : Arena) (table : List (String × List String)) (group : Nat) :
    Guarded (List (String × List String)) := do
  let a ← t.look group Node.attributes
  match a.name with
  | none => return table
  | some name => return insertByKey name (← t.leafNamesGuarded group) table

/-- For each named group, by name: the names of the data layers directly below it. -/
def routingGuarded (t : Arena) : Guarded (List (String × List String)) := do
  let groups ← Guarded.filter (fun k => return (← t.look k Node.role) == .group) (← t.allGuarded)
  groups.foldlM t.enterGroupGuarded []

/-- Enter the styles that a child shares with a parent of the given attributes. -/
def enterChildGuarded (t : Arena) (a : Attributes) (table : List (Nat × List String))
    (child : Nat) : Guarded (List (Nat × List String)) := do
  let b ← t.look child Node.attributes
  let shared := (b.styles.filter fun s => (a.style? s.name).isSome).map Style.name
  return if shared.isEmpty then table else insertByKey child shared table

/-- Enter the styles that the children of a layer share with it, child by child. -/
def enterSharedGuarded (t : Arena) (table : List (Nat × List String)) (parent : Nat) :
    Guarded (List (Nat × List String)) := do
  let a ← t.look parent Node.attributes
  (← t.childrenGuarded parent).foldlM (t.enterChildGuarded a) table

/-- For each layer that has any: the names of the styles that it shares with its parent. -/
def styleCollisionsGuarded (t : Arena) : Guarded (List (Nat × List String)) := do
  (← t.allGuarded).foldlM t.enterSharedGuarded []

/-- The first style of each of the given names at a layer. -/
def stylesNamedGuarded (t : Arena) (e : Nat × List String) : Guarded (List LayerStyle) := do
  let a ← t.look e.1 Node.attributes
  return (e.2.filterMap a.style?).map (LayerStyle.mk e.1)

/-- The styles whose legend reference has to follow that of the parent. -/
def legendCleanupGuarded (t : Arena) (s : Settings) : Guarded (List LayerStyle) :=
  if s.cleansSharedStyles then do
    Guarded.flatMap t.stylesNamedGuarded (← t.styleCollisionsGuarded)
  else .ok []

/-- No view of the arena fails, and none is other than it should be. -/
structure AnswersViews (t : Arena) : Prop where
  children : ∀ k < t.size, t.childrenGuarded k = .ok (t.children k)
  descendants : ∀ k < t.size, t.descendantsGuarded k = .ok (t.descendants k)
  depth : ∀ k < t.size, t.depthGuarded k = .ok (t.depth k)
  parentBelow : ∀ k < t.size, ∀ root < t.size,
    t.parentBelowGuarded k root = .ok (t.parentBelow k root)
  dataLayers : t.dataLayersGuarded = .ok t.dataLayers
  layersWithLegend : t.layersWithLegendGuarded = .ok t.layersWithLegend
  legendsToDraw : t.legendsToDrawGuarded = .ok t.legendsToDraw
  routing : t.routingGuarded = .ok t.routing
  styleCollisions : t.styleCollisionsGuarded = .ok t.styleCollisions
  legendCleanup : ∀ s, t.legendCleanupGuarded s = .ok (t.legendCleanup s)

variable {l : Layer} {k : Nat}

theorem filterRoleGuarded_eq_ok {t : Arena} {ks : List Nat} (h : ∀ k ∈ ks, k < t.size)
    (role : Role) : Guarded.filter (fun k => return (← t.look k Node.role) == role) ks
      = .ok (ks.filter fun k => t.role k == role) := by
  refine filter_eq_ok fun k hk => ?_
  rw [look_role (h k hk)]
  rfl

theorem dataLayersGuarded_eq_ok (l : Layer) :
    (ofLayer l).dataLayersGuarded = .ok (ofLayer l).dataLayers := by
  rw [dataLayersGuarded, allGuarded_eq_ok, ok_bind,
    filterRoleGuarded_eq_ok fun k => mem_all_iff.mp]
  rfl

theorem layersWithLegendGuarded_eq_ok (l : Layer) :
    (ofLayer l).layersWithLegendGuarded = .ok (ofLayer l).layersWithLegend := by
  rw [layersWithLegendGuarded, allGuarded_eq_ok, ok_bind]
  refine filter_eq_ok fun k hk => ?_
  have hk := mem_all_iff.mp hk
  have hlook := look_attributes hk
  rw [look_of_lt hk] at hlook ⊢
  rw [showsLegend, ← Except.ok.inj hlook]

theorem legendsToDrawGuarded_eq_ok (l : Layer) :
    (ofLayer l).legendsToDrawGuarded = .ok (ofLayer l).legendsToDraw := by
  have hvisible : Guarded.filter
        (fun k => return (← (ofLayer l).look k Node.attributes).isVisible) (ofLayer l).all
      = .ok ((ofLayer l).all.filter fun k => ((ofLayer l).attributes k).isVisible) := by
    refine filter_eq_ok fun k hk => ?_
    rw [look_attributes (mem_all_iff.mp hk)]
    rfl
  rw [legendsToDrawGuarded, allGuarded_eq_ok, ok_bind, hvisible, ok_bind]
  refine flatMap_eq_ok fun k hk => ?_
  rw [stylesWithoutLegendGuarded, look_attributes (mem_all_iff.mp (List.mem_filter.mp hk).1)]
  rfl

theorem leafNamesGuarded_eq_ok (h : k < (ofLayer l).size) :
    (ofLayer l).leafNamesGuarded k = .ok ((ofLayer l).leafNames k) := by
  have hchildren : ∀ c ∈ (ofLayer l).children k, c < (ofLayer l).size :=
    fun c => lt_size_of_mem_children h
  rw [leafNamesGuarded, childrenGuarded_eq_ok h, ok_bind, filterRoleGuarded_eq_ok hchildren,
    ok_bind, mapM_eq_ok fun c hc => look_attributes (hchildren c (List.mem_filter.mp hc).1),
    ok_bind, List.filterMap_map]
  rfl

theorem routingGuarded_eq_ok (l : Layer) :
    (ofLayer l).routingGuarded = .ok (ofLayer l).routing := by
  rw [routingGuarded, allGuarded_eq_ok, ok_bind, filterRoleGuarded_eq_ok fun k => mem_all_iff.mp,
    ok_bind]
  refine foldlM_eq_ok [] fun group hgroup table => ?_
  have hlt := mem_all_iff.mp (List.mem_filter.mp hgroup).1
  rw [enterGroupGuarded, look_attributes hlt, ok_bind, leafNamesGuarded_eq_ok hlt, name]
  cases ((ofLayer l).attributes group).name <;> rfl

theorem enterSharedGuarded_eq_ok (h : k < (ofLayer l).size) (table : List (Nat × List String)) :
    (ofLayer l).enterSharedGuarded table k = .ok ((ofLayer l).enterShared table k) := by
  rw [enterSharedGuarded, look_attributes h, ok_bind, childrenGuarded_eq_ok h, ok_bind]
  refine foldlM_eq_ok table fun c hc table => ?_
  rw [enterChildGuarded, look_attributes (lt_size_of_mem_children h hc)]
  rfl

theorem styleCollisionsGuarded_eq_ok (l : Layer) :
    (ofLayer l).styleCollisionsGuarded = .ok (ofLayer l).styleCollisions := by
  rw [styleCollisionsGuarded, allGuarded_eq_ok, ok_bind]
  exact foldlM_eq_ok [] fun k hk table => enterSharedGuarded_eq_ok (mem_all_iff.mp hk) table

/-- Only layers of the arena share styles with their parents. -/
theorem lt_size_of_mem_styleCollisions {e : Nat × List String}
    (h : e ∈ (ofLayer l).styleCollisions) : e.1 < (ofLayer l).size := by
  rw [styleCollisions_eq_filterMap, List.mem_filterMap] at h
  obtain ⟨k, hk, he⟩ := h
  obtain ⟨names, -, rfl⟩ := Option.map_eq_some_iff.mp he
  exact mem_all_iff.mp hk

theorem legendCleanupGuarded_eq_ok (l : Layer) (s : Settings) :
    (ofLayer l).legendCleanupGuarded s = .ok ((ofLayer l).legendCleanup s) := by
  rw [legendCleanupGuarded, legendCleanup]
  split
  · rw [styleCollisionsGuarded_eq_ok, ok_bind]
    refine flatMap_eq_ok fun e he => ?_
    rw [stylesNamedGuarded, look_attributes (lt_size_of_mem_styleCollisions he)]
    rfl
  · rfl

/-- **No view of the arena of a tree fails.** -/
theorem answersViews_ofLayer (l : Layer) : (ofLayer l).AnswersViews where
  children _ := childrenGuarded_eq_ok
  descendants _ := descendantsGuarded_eq_ok
  depth _ := depthGuarded_eq_ok
  parentBelow _ hk _ hroot := parentBelowGuarded_eq_ok hk hroot
  dataLayers := dataLayersGuarded_eq_ok l
  layersWithLegend := layersWithLegendGuarded_eq_ok l
  legendsToDraw := legendsToDrawGuarded_eq_ok l
  routing := routingGuarded_eq_ok l
  styleCollisions := styleCollisionsGuarded_eq_ok l
  legendCleanup := legendCleanupGuarded_eq_ok l

end Arena

end MapLayers
