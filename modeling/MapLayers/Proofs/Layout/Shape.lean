import Mathlib.Data.List.Dedup
import MapLayers.Proofs.Boxes.Inheritance
import MapLayers.Proofs.Layout.Depths
import MapLayers.Trace

/-!
# The shape of a description

A summary is counted on a hierarchy: the roles are told from links, the depths found by climbing,
and the referenced systems kept in order.  The numbers are those of the description itself, where a
layer is a group or a data layer by whether it has children, the greatest depth is the height of the
tree, and a system counts once however many layers declare boxes for it
(`Hierarchy.describes_summary`).

Roles and depths are counted along pre-order, so both come from what the places of the tree say
(`Arena.map_role_all`, `Arena.map_depth_all`).  The number of layers is that of the description, the
top layer among them; it is the only one that is neither a group nor a data layer.

* `Layer.height` and `Layer.descendants` are the two measures of a tree that are needed, each by
  recursion over the layer and its children.
* `Layer.foldl_max_depths` says that the greatest depth, as the summary finds it, is the height.
* `Summary.Describes` puts the five numbers side by side with what they count.
-/

set_option autoImplicit false

namespace MapLayers

namespace Layer

mutual

/-- How many steps it takes from a layer down to the deepest one below it. -/
def height : Layer → Nat
  | .node _ cs => heightAll cs

/-- How many steps it takes from the parent of some layers down to the deepest of them and below. -/
def heightAll : List Layer → Nat
  | [] => 0
  | c :: cs => max (c.height + 1) (heightAll cs)

end

/-- All layers below a layer, in pre-order. -/
def descendants (l : Layer) : List Layer := preorderAll l.children

/-- The systems for which boxes are declared, as often as they are. -/
def declaredSystems (l : Layer) : List Crs :=
  l.preorder.flatMap fun s => s.attributes.boxes.map DeclaredBox.crs

mutual

/-- **The greatest of the depths is the height**, from the depth of the layer on. -/
theorem foldl_max_depths : ∀ (l : Layer) (d m : Nat),
    (l.depths d).foldl max m = max m (d + l.height)
  | .node _ cs, d, m => by
    rw [depths, List.foldl_cons, foldl_max_depthsAll cs d m, height]

theorem foldl_max_depthsAll : ∀ (cs : List Layer) (d m : Nat),
    (depthsAll (d + 1) cs).foldl max (max m d) = max m (d + heightAll cs)
  | [] => by
    intro _ _
    rfl
  | c :: cs => by
    intro d m
    have hrest := foldl_max_depthsAll cs d (max m (d + 1 + c.height))
    have hswap : max (max m d) (d + 1 + c.height) = max (max m (d + 1 + c.height)) d := by omega
    rw [depthsAll, List.foldl_append, foldl_max_depths c (d + 1), hswap, hrest, heightAll]
    omega

end

/-- The top layer and what is below it are all layers. -/
theorem count_eq (l : Layer) : l.count = l.descendants.length + 1 := by
  rw [← Place.length_preorder l]
  cases l
  rfl

end Layer

namespace Place

/-- Below a layer, every place has a parent. -/
theorem parent_ne_none_of_mem_placesAll {p k : Nat} {cs : List Layer} {q : Place}
    (h : q ∈ Layer.placesAll p k cs) : q.parent ≠ none := by
  rw [placesAll_eq] at h
  obtain ⟨c, hc, hq⟩ := List.mem_flatMap.mp h
  rcases eq_or_mem_children hq with rfl | ⟨s, -, hs⟩
  · rw [parent_of_mem_siblings hc]
    exact Option.some_ne_none p
  · rw [parent_of_mem_children hs]
    exact Option.some_ne_none s.position

theorem role_of_parent {q : Place} (h : q.parent ≠ none) :
    q.node.role = if q.layer.children.isEmpty then .data else .group := by
  obtain ⟨⟨a, cs⟩, k, _ | p, nx⟩ := q
  · exact absurd rfl h
  · cases cs <;> rfl

end Place

namespace Arena

/-- **The roles of all layers** are told by who has children. -/
theorem map_role_all (l : Layer) : (ofLayer l).all.map (ofLayer l).role
    = .top :: l.descendants.map fun c => if c.children.isEmpty then .data else .group := by
  have hroles : ((Place.top l).all.map Place.position).map (ofLayer l).role
      = (Place.top l).all.map fun q => q.node.role := by
    rw [List.map_map]
    exact List.map_congr_left fun q hq => role_eq hq
  obtain ⟨a, cs⟩ := l
  have hbelow : (Layer.placesAll 0 1 cs).map (fun q => q.node.role)
      = ((Layer.placesAll 0 1 cs).map Place.layer).map
          fun c => if c.children.isEmpty then .data else .group := by
    rw [List.map_map]
    exact List.map_congr_left fun q hq =>
      Place.role_of_parent (Place.parent_ne_none_of_mem_placesAll hq)
  rw [all_eq_positions, hroles]
  show Role.top :: (Layer.placesAll 0 1 cs).map (fun q => q.node.role) = _
  rw [hbelow, Place.layers_placesAll]
  rfl

end Arena

/-- The summary gives the shape of a description in numbers. -/
structure Summary.Describes (s : Summary) (l : Layer) (primary : Crs) : Prop where
  /-- The layers are those of the description. -/
  layers : s.layers = l.count
  /-- The groups are the layers below the top that have children. -/
  groups : s.groups = l.descendants.countP fun c => !c.children.isEmpty
  /-- The data layers are those that have none. -/
  data : s.data = l.descendants.countP fun c => c.children.isEmpty
  /-- With the top layer, these are all. -/
  sum : s.layers = s.groups + s.data + 1
  /-- The deepest layer is as deep as the tree is high. -/
  depth : s.depth = l.height
  /-- The primary system and the declared ones count once each. -/
  systems : s.systems = (primary :: l.declaredSystems).dedup.length

namespace Hierarchy

variable {l : Layer} {primary : Crs}

/-- How many layers have a role. -/
theorem length_filter_role (l : Layer) (primary : Crs) (r : Role) :
    ((ofLayer l primary).all.filter fun k => (ofLayer l primary).role k == r).length
      = (Role.top :: l.descendants.map
        fun c => if c.children.isEmpty then .data else .group).count r := by
  rw [← Arena.map_role_all, List.count, List.countP_map, List.countP_eq_length_filter]
  rfl

theorem groups_summary (l : Layer) (primary : Crs) : (ofLayer l primary).summary.groups
    = l.descendants.countP fun c => !c.children.isEmpty := by
  refine (length_filter_role l primary .group).trans ?_
  rw [List.count_cons_of_ne (by decide), List.count, List.countP_map]
  refine List.countP_congr fun c _ => ?_
  show ((if c.children.isEmpty then Role.data else .group) == .group) = true ↔ _
  cases c.children.isEmpty <;> decide

theorem data_summary (l : Layer) (primary : Crs) : (ofLayer l primary).summary.data
    = l.descendants.countP fun c => c.children.isEmpty := by
  refine (length_filter_role l primary .data).trans ?_
  rw [List.count_cons_of_ne (by decide), List.count, List.countP_map]
  refine List.countP_congr fun c _ => ?_
  show ((if c.children.isEmpty then Role.data else .group) == .data) = true ↔ _
  cases c.children.isEmpty <;> decide

theorem mem_declaredSystems {c : Crs} : c ∈ l.declaredSystems ↔
    ∃ q ∈ (Place.top l).all, ∃ b ∈ q.layer.attributes.boxes, b.crs = c := by
  rw [Layer.declaredSystems, ← Place.layers_places l 0 none none, List.mem_flatMap]
  simp only [List.mem_map, exists_exists_and_eq_and]
  rfl

theorem systems_summary (l : Layer) (primary : Crs) : (ofLayer l primary).summary.systems
    = (primary :: l.declaredSystems).dedup.length := by
  have hnodup : (ofLayer l primary).referenced.Nodup := by
    refine (Arena.pairwise_referenced _ _).imp ?_
    rintro c d hlt rfl
    exact Crs.lt_irrefl c hlt
  refine ((List.perm_ext_iff_of_nodup hnodup (List.nodup_dedup _)).mpr fun c => ?_).length_eq
  rw [mem_referenced_iff, List.mem_dedup, List.mem_cons, mem_declaredSystems]

/-- **A summary gives the shape of the description.** -/
theorem describes_summary (l : Layer) (primary : Crs) :
    (ofLayer l primary).summary.Describes l primary where
  layers := Arena.size_ofLayer l
  groups := groups_summary l primary
  data := data_summary l primary
  sum := by
    have hsplit := List.length_eq_countP_add_countP (fun c : Layer => c.children.isEmpty)
      (l := l.descendants)
    have hcount : (ofLayer l primary).summary.layers = _ :=
      (Arena.size_ofLayer l).trans (Layer.count_eq l)
    simp only [Bool.not_eq_true, Bool.decide_eq_false] at hsplit
    rw [hcount, groups_summary, data_summary, hsplit, Nat.add_comm (List.countP _ _)]
  depth := by
    show ((Arena.ofLayer l).all.map (Arena.ofLayer l).depth).foldl max 0 = _
    rw [Arena.map_depth_all, Layer.foldl_max_depths, Nat.zero_max, Nat.zero_add]
  systems := systems_summary l primary

end Hierarchy

end MapLayers
