import Mathlib

namespace RiscvWorkshop.LinkedTree

/-!
# Binary trees in memory

A node has pointers to its two children and to its parent, and a tag.  `TreeLinked`
says that the links in memory are those of a tree; a tree with a hole is a path
from the hole to the root.  Trees are turned around by a side, so that what is
said of the left is said of the right too.
-/

/-- A side of a node. -/
inductive Side where
  | left
  | right
deriving Repr, DecidableEq

/-- The other side. -/
def Side.other : Side → Side
  | left => right
  | right => left

@[simp] theorem Side.other_other (side : Side) : side.other.other = side := by
  cases side <;> rfl

theorem Side.other_ne (side : Side) : side.other ≠ side := by
  cases side <;> decide

/-- A side is the other one, if it is not the same. -/
theorem Side.eq_other_of_ne
    {side other : Side}
    (different : other ≠ side) :
    other = side.other := by
  cases side <;> cases other <;> first | rfl | exact absurd rfl different

/-- The links of a node. -/
structure Entry (Node Tag : Type*) where
  child : Side → Option Node
  parent : Option Node
  tag : Tag

/-- The root pointer of a tree and the links of the nodes. -/
structure TreeLinks (Node Tag : Type*) where
  root : Option Node
  entry : Node → Entry Node Tag

/-- A binary tree of nodes with tags. -/
inductive Shape (Node Tag : Type*) where
  | leaf
  | node (tag : Tag) (left : Shape Node Tag) (top : Node) (right : Shape Node Tag)
deriving Repr, DecidableEq

/-- The way from a hole in a tree up to the root; the hole is on a side. -/
inductive Path (Node Tag : Type*) where
  | top
  | frame
      (side : Side)
      (tag : Tag)
      (parent : Node)
      (sibling : Shape Node Tag)
      (up : Path Node Tag)

section Shapes

variable {Node Tag : Type*}

/-- What is on the side of a child, and what is on the other one. -/
def sides
    {α : Type*}
    (side : Side)
    (near far : α) : Side → α :=
  fun other => if other = side then near else far

@[simp] theorem sides_near
    {α : Type*}
    (side : Side)
    (near far : α) :
    sides side near far side = near :=
  if_pos rfl

@[simp] theorem sides_far
    {α : Type*}
    (side : Side)
    (near far : α) :
    sides side near far side.other = far :=
  if_neg side.other_ne

/-- What is on both sides, told from the other side. -/
theorem sides_other
    {α : Type*}
    (side : Side)
    (near far : α) :
    sides side.other near far = sides side far near := by
  funext other
  cases side <;> cases other <;> rfl

/-- One side is changed. -/
theorem update_sides
    {α : Type*}
    (side : Side)
    (near far new : α) :
    Function.update (sides side near far) side new = sides side new far := by
  funext other
  by_cases same : other = side
  · subst same
    rw [Function.update_self, sides_near]
  · rw [Function.update_of_ne same, sides, sides, if_neg same, if_neg same]

theorem update_sides_other
    {α : Type*}
    (side : Side)
    (near far new : α) :
    Function.update (sides side near far) side.other new =
      sides side near new := by
  rw [← sides_other, update_sides, sides_other]

/-- A list from what is on a side, a node, and what is on the other side. -/
def Side.append
    (side : Side)
    (near : List Node)
    (top : Node)
    (far : List Node) : List Node :=
  match side with
  | .left => near ++ top :: far
  | .right => far ++ top :: near

/-- The order of the nodes is the same if a node is turned above another one. -/
theorem Side.append_rotate
    (side : Side)
    (outer middle inner : List Node)
    (x y : Node) :
    side.append (side.append outer x middle) y inner =
      side.append outer x (side.append middle y inner) := by
  cases side with
  | left => simp only [append, List.append_assoc, List.cons_append]
  | right => simp only [append, List.append_assoc, List.cons_append]

/-- The nodes of a list in the order in which they come on the way to a side. -/
def Side.line
    (side : Side)
    (nodes : List Node) : List Node :=
  match side with
  | .left => nodes.reverse
  | .right => nodes

@[simp] theorem Side.line_line
    (side : Side)
    (nodes : List Node) :
    side.line (side.line nodes) = nodes := by
  cases side with
  | left => exact List.reverse_reverse nodes
  | right => rfl

@[simp] theorem Side.length_line
    (side : Side)
    (nodes : List Node) :
    (side.line nodes).length = nodes.length := by
  cases side with
  | left => exact List.length_reverse
  | right => rfl

/-- The nodes behind a node and those ahead of it, on the way to a side. -/
theorem Side.line_append
    (side : Side)
    (behind ahead : List Node)
    (top : Node) :
    side.line (behind ++ top :: ahead) =
      side.append (side.line ahead) top (side.line behind) := by
  cases side with
  | left =>
      simp only [line, append, List.reverse_append, List.reverse_cons,
        List.append_assoc, List.cons_append, List.nil_append]
  | right => rfl

/-- The first node of a list from a side. -/
def Side.first
    (side : Side)
    (nodes : List Node) : Option Node :=
  match side with
  | .left => nodes.head?
  | .right => nodes.getLast?

theorem Side.first_line
    (side : Side)
    (nodes : List Node) :
    side.other.first (side.line nodes) = nodes.head? := by
  cases side with
  | left => exact List.getLast?_reverse
  | right => rfl

theorem Side.first_append
    (side : Side)
    (near far : List Node)
    (top : Node) :
    side.first (side.append near top far) = (side.first near).or (some top) := by
  cases side with
  | left =>
      cases near with
      | nil => rfl
      | cons => rfl
  | right =>
      rw [first, append, List.getLast?_append, List.getLast?_cons,
        Option.some_or, first]
      cases near.getLast? <;> rfl

namespace Shape

/-- A node with a near subtree on one side and a far one on the other. -/
def join
    (side : Side)
    (tag : Tag)
    (near : Shape Node Tag)
    (top : Node)
    (far : Shape Node Tag) : Shape Node Tag :=
  match side with
  | .left => node tag near top far
  | .right => node tag far top near

/-- The pointer to a tree. -/
def root : Shape Node Tag → Option Node
  | leaf => none
  | node _ _ top _ => some top

/-- The nodes from left to right. -/
def toList : Shape Node Tag → List Node
  | leaf => []
  | node _ left top right => left.toList ++ top :: right.toList

@[simp] theorem root_join
    (side : Side)
    (tag : Tag)
    (near far : Shape Node Tag)
    (top : Node) :
    (join side tag near top far).root = some top := by
  cases side <;> rfl

theorem join_other
    (side : Side)
    (tag : Tag)
    (near far : Shape Node Tag)
    (top : Node) :
    join side.other tag near top far = join side tag far top near := by
  cases side <;> rfl

/-- A tree with a pointer has a node there. -/
theorem eq_join_of_root
    {tree : Shape Node Tag}
    {top : Node}
    (side : Side)
    (isTop : tree.root = some top) :
    ∃ tag near far, tree = join side tag near top far := by
  cases tree with
  | leaf => cases isTop
  | node tag left top right =>
      cases isTop
      cases side with
      | left => exact ⟨tag, left, right, rfl⟩
      | right => exact ⟨tag, right, left, rfl⟩

theorem eq_leaf_of_root
    {tree : Shape Node Tag}
    (isTop : tree.root = none) :
    tree = leaf := by
  cases tree with
  | leaf => rfl
  | node => cases isTop

/-- The order of the nodes of a tree is that of its parts. -/
theorem toList_join
    (side : Side)
    (tag : Tag)
    (near far : Shape Node Tag)
    (top : Node) :
    (join side tag near top far).toList =
      side.append near.toList top far.toList := by
  cases side <;> rfl

/-- The nodes of a tree, whatever the side. -/
theorem mem_join
    {side : Side}
    {tag : Tag}
    {near far : Shape Node Tag}
    {top x : Node} :
    x ∈ (join side tag near top far).toList ↔
      x = top ∨ x ∈ near.toList ∨ x ∈ far.toList := by
  cases side with
  | left =>
      simp only [join, toList, List.mem_append, List.mem_cons]
      tauto
  | right =>
      simp only [join, toList, List.mem_append, List.mem_cons]
      tauto

end Shape

namespace Path

/-- Put a tree into the hole. -/
def fill : Path Node Tag → Shape Node Tag → Shape Node Tag
  | top, tree => tree
  | frame side tag parent sibling up, tree =>
      up.fill (Shape.join side tag tree parent sibling)

/-- The parent of the hole. -/
def parent : Path Node Tag → Option Node
  | top => none
  | frame _ _ parent _ _ => some parent

/-- The number of nodes from the hole up to the root. -/
def length : Path Node Tag → Nat
  | top => 0
  | frame _ _ _ _ up => up.length + 1

/-- The pointer to the root when a pointer is in the hole. -/
def rootOf : Path Node Tag → Option Node → Option Node
  | top, hole => hole
  | frame _ _ parent _ up, _ => up.rootOf (some parent)

/-- The nodes to the left of the hole. -/
def before : Path Node Tag → List Node
  | top => []
  | frame .left _ _ _ up => up.before
  | frame .right _ parent sibling up => up.before ++ sibling.toList ++ [parent]

/-- The nodes to the right of the hole. -/
def after : Path Node Tag → List Node
  | top => []
  | frame .left _ parent sibling up => parent :: sibling.toList ++ up.after
  | frame .right _ _ _ up => up.after

/-- The nodes on a side of the hole. -/
def on (up : Path Node Tag) : Side → List Node
  | .left => up.before
  | .right => up.after

/-- A node is around the hole. -/
def Has (up : Path Node Tag) (x : Node) : Prop :=
  x ∈ up.before ∨ x ∈ up.after

theorem root_fill
    (up : Path Node Tag)
    (tree : Shape Node Tag) :
    (up.fill tree).root = up.rootOf tree.root := by
  induction up generalizing tree with
  | top => rfl
  | frame side tag parent sibling up inductionHypothesis =>
      rw [fill, inductionHypothesis, Shape.root_join, rootOf]

/-- The nodes on the side of a hole are those on the side of its parent. -/
theorem on_frame_same
    (side : Side)
    (tag : Tag)
    (parent : Node)
    (sibling : Shape Node Tag)
    (up : Path Node Tag) :
    (frame side tag parent sibling up).on side = up.on side := by
  cases side <;> rfl

/-- The first node on the far side of a hole is its parent. -/
theorem first_on_frame_other
    (side : Side)
    (tag : Tag)
    (parent : Node)
    (sibling : Shape Node Tag)
    (up : Path Node Tag) :
    side.other.first ((frame side.other tag parent sibling up).on side) =
      some parent := by
  cases side with
  | left => exact List.getLast?_concat
  | right => rfl

/-- A hole in a tree that is in a hole. -/
def onto : Path Node Tag → Path Node Tag → Path Node Tag
  | top, up => up
  | frame side tag parent sibling below, up =>
      frame side tag parent sibling (below.onto up)

theorem fill_onto
    (below up : Path Node Tag)
    (tree : Shape Node Tag) :
    (below.onto up).fill tree = up.fill (below.fill tree) := by
  induction below generalizing tree with
  | top => rfl
  | frame side tag parent sibling below inductionHypothesis =>
      exact inductionHypothesis _

theorem length_onto (below up : Path Node Tag) :
    (below.onto up).length = below.length + up.length := by
  induction below with
  | top => exact (Nat.zero_add _).symm
  | frame side tag parent sibling below inductionHypothesis =>
      rw [onto, length, length, inductionHypothesis, Nat.add_right_comm]

theorem before_onto (below up : Path Node Tag) :
    (below.onto up).before = up.before ++ below.before := by
  induction below with
  | top => exact (List.append_nil _).symm
  | frame side tag parent sibling below inductionHypothesis =>
      cases side with
      | left => exact inductionHypothesis
      | right =>
          simp only [onto, before, inductionHypothesis, List.append_assoc]

/-- Every node of a tree is at the top of a part of it. -/
theorem exists_fill_of_mem
    {tree : Shape Node Tag}
    {x : Node}
    (member : x ∈ tree.toList) :
    ∃ (up : Path Node Tag) (tag : Tag) (left right : Shape Node Tag),
      tree = up.fill (.node tag left x right) := by
  induction tree with
  | leaf => cases member
  | node tag left top right leftHypothesis rightHypothesis =>
      rw [Shape.toList, List.mem_append, List.mem_cons] at member
      rcases member with inLeft | rfl | inRight
      · obtain ⟨up, inner, near, far, rfl⟩ := leftHypothesis inLeft
        refine
          ⟨up.onto (frame .left tag top right Path.top), inner, near, far, ?_⟩
        rw [fill_onto]
        rfl
      · exact ⟨Path.top, tag, left, right, rfl⟩
      · obtain ⟨up, inner, near, far, rfl⟩ := rightHypothesis inRight
        refine
          ⟨up.onto (frame .right tag top left Path.top), inner, near, far, ?_⟩
        rw [fill_onto]
        rfl

/-- The root of a tree with a node in the hole. -/
theorem rootOf_some
    (up : Path Node Tag)
    (x : Node) :
    ∃ top, up.rootOf (some x) = some top ∧ (top = x ∨ up.Has top) := by
  induction up generalizing x with
  | top => exact ⟨x, rfl, .inl rfl⟩
  | frame side tag parent sibling up inductionHypothesis =>
      obtain ⟨top, isTop, inside⟩ := inductionHypothesis parent
      refine ⟨top, isTop, .inr ?_⟩
      cases side with
      | left =>
          rcases inside with rfl | before | after
          · exact .inr (List.mem_append_left _ (List.mem_cons_self ..))
          · exact .inl before
          · exact .inr (List.mem_append_right _ after)
      | right =>
          rcases inside with rfl | before | after
          · exact .inl (List.mem_append_right _ (List.mem_singleton_self _))
          · exact
              .inl (List.mem_append_left _ (List.mem_append_left _ before))
          · exact .inr after

/-- From left to right: what is before the hole, the tree in it, what is after. -/
theorem toList_fill
    (up : Path Node Tag)
    (tree : Shape Node Tag) :
    (up.fill tree).toList = up.before ++ tree.toList ++ up.after := by
  induction up generalizing tree with
  | top =>
      rw [fill, before, after, List.nil_append, List.append_nil]
  | frame side tag parent sibling up inductionHypothesis =>
      rw [fill, inductionHypothesis]
      cases side with
      | left =>
          simp only [Shape.join, Shape.toList, before, after,
            List.append_assoc, List.cons_append]
      | right =>
          simp only [Shape.join, Shape.toList, before, after,
            List.append_assoc, List.cons_append, List.nil_append]

theorem mem_fill_of_has
    {up : Path Node Tag}
    {x : Node}
    (has : up.Has x)
    (tree : Shape Node Tag) :
    x ∈ (up.fill tree).toList := by
  rw [toList_fill]
  rcases has with before | after
  · exact List.mem_append_left _ (List.mem_append_left _ before)
  · exact List.mem_append_right _ after

/-- A hole on the far side of a node. -/
theorem fill_far
    (side : Side)
    (tag : Tag)
    (parent : Node)
    (near far : Shape Node Tag)
    (up : Path Node Tag) :
    (frame side.other tag parent near up).fill far =
      up.fill (Shape.join side tag near parent far) := by
  rw [fill, Shape.join_other]

theorem has_frame
    {side : Side}
    {tag : Tag}
    {parent x : Node}
    {sibling : Shape Node Tag}
    {up : Path Node Tag} :
    (frame side tag parent sibling up).Has x ↔
      x = parent ∨ x ∈ sibling.toList ∨ up.Has x := by
  cases side with
  | left =>
      simp only [Has, before, after, List.mem_append, List.mem_cons]
      tauto
  | right =>
      simp only [Has, before, after, List.mem_append, List.mem_cons,
        List.not_mem_nil, or_false]
      tauto

end Path

/-! ## Nodes that occur once -/

/-- The parts of a tree have no node in common. -/
structure Apart
    (up : Path Node Tag)
    (near : Shape Node Tag)
    (top : Node)
    (far : Shape Node Tag) : Prop where
  topNear : top ∉ near.toList
  topFar : top ∉ far.toList
  topUp : ¬ up.Has top
  nearFar : ∀ x ∈ near.toList, x ∉ far.toList
  nearUp : ∀ x ∈ near.toList, ¬ up.Has x
  farUp : ∀ x ∈ far.toList, ¬ up.Has x
  near : near.toList.Nodup
  far : far.toList.Nodup

theorem perm_join
    (side : Side)
    (tag : Tag)
    (near far : Shape Node Tag)
    (top : Node) :
    (Shape.join side tag near top far).toList.Perm
      (top :: (near.toList ++ far.toList)) := by
  cases side with
  | left => exact List.perm_middle
  | right =>
      exact List.perm_middle.trans (List.perm_append_comm.cons top)

/-- The nodes of a tree and those around it. -/
theorem perm_fill
    (up : Path Node Tag)
    (tree : Shape Node Tag) :
    (up.fill tree).toList.Perm (tree.toList ++ (up.before ++ up.after)) := by
  rw [Path.toList_fill, ← List.append_assoc]
  exact List.perm_append_comm.append_right up.after

theorem nodup_fill_iff
    {up : Path Node Tag}
    {tree : Shape Node Tag} :
    (up.fill tree).toList.Nodup ↔
      tree.toList.Nodup ∧ (up.before ++ up.after).Nodup ∧
        ∀ x ∈ tree.toList, ¬ up.Has x := by
  rw [(perm_fill up tree).nodup_iff, List.nodup_append']
  refine and_congr_right fun _ => and_congr_right fun _ => ?_
  rw [List.disjoint_left]
  exact forall₂_congr fun x _ => not_congr List.mem_append

theorem nodup_join_iff
    {side : Side}
    {tag : Tag}
    {near far : Shape Node Tag}
    {top : Node} :
    (Shape.join side tag near top far).toList.Nodup ↔
      top ∉ near.toList ∧ top ∉ far.toList ∧ near.toList.Nodup ∧
        far.toList.Nodup ∧ ∀ x ∈ near.toList, x ∉ far.toList := by
  rw [(perm_join side tag near far top).nodup_iff, List.nodup_cons,
    List.mem_append, not_or, List.nodup_append', List.disjoint_left, and_assoc]

/-- The parts of a tree without a repeated node are apart. -/
theorem apart_of_nodup
    {up : Path Node Tag}
    {side : Side}
    {tag : Tag}
    {near far : Shape Node Tag}
    {top : Node}
    (nodup : (up.fill (Shape.join side tag near top far)).toList.Nodup) :
    Apart up near top far := by
  obtain ⟨inside, _, around⟩ := nodup_fill_iff.mp nodup
  obtain ⟨topNear, topFar, near, far, nearFar⟩ := nodup_join_iff.mp inside
  exact
    { topNear := topNear
      topFar := topFar
      topUp := around top (Shape.mem_join.mpr (.inl rfl))
      nearFar := nearFar
      nearUp := fun x member =>
        around x (Shape.mem_join.mpr (.inr (.inl member)))
      farUp := fun x member =>
        around x (Shape.mem_join.mpr (.inr (.inr member)))
      near := near
      far := far }

/-! ## TreeLinks that are those of a tree -/

/-- The links of the nodes of a tree below a parent. -/
def Holds (entry : Node → Entry Node Tag) : Option Node → Shape Node Tag → Prop
  | _, .leaf => True
  | parent, .node tag left top right =>
      entry top =
          { child := sides .left left.root right.root, parent, tag } ∧
        Holds entry (some top) left ∧ Holds entry (some top) right

/-- The links of the nodes around a hole, with a pointer in the hole. -/
def HoldsPath (entry : Node → Entry Node Tag) : Option Node → Path Node Tag → Prop
  | _, .top => True
  | hole, .frame side tag top sibling up =>
      entry top =
          { child := sides side hole sibling.root, parent := up.parent, tag } ∧
        Holds entry (some top) sibling ∧ HoldsPath entry (some top) up

/-- The links in memory are those of a tree. -/
structure TreeLinked
    (links : TreeLinks Node Tag)
    (tree : Shape Node Tag) : Prop where
  root : links.root = tree.root
  holds : Holds links.entry none tree
  nodup : tree.toList.Nodup

variable {entry next : Node → Entry Node Tag}

theorem holds_join
    {parent : Option Node}
    {side : Side}
    {tag : Tag}
    {near far : Shape Node Tag}
    {top : Node} :
    Holds entry parent (Shape.join side tag near top far) ↔
      entry top =
          { child := sides side near.root far.root, parent, tag } ∧
        Holds entry (some top) near ∧ Holds entry (some top) far := by
  cases side with
  | left => exact Iff.rfl
  | right =>
      rw [Shape.join, Holds, and_comm (a := Holds entry (some top) far)]
      exact and_congr_left fun _ => by rw [← sides_other]; rfl

/-- The links of a tree are those of a part of it and those around the part. -/
theorem holds_fill
    {up : Path Node Tag}
    {tree : Shape Node Tag} :
    Holds entry none (up.fill tree) ↔
      HoldsPath entry tree.root up ∧ Holds entry up.parent tree := by
  induction up generalizing tree with
  | top => exact (and_iff_right trivial).symm
  | frame side tag parent sibling up inductionHypothesis =>
      rw [Path.fill, inductionHypothesis, holds_join, Shape.root_join,
        HoldsPath]
      constructor
      · rintro ⟨above, here, inTree, inSibling⟩
        exact ⟨⟨here, inSibling, above⟩, inTree⟩
      · rintro ⟨⟨here, inSibling, above⟩, inTree⟩
        exact ⟨above, here, inTree, inSibling⟩

/-- The links of a tree are as they were if those of its nodes are. -/
theorem Holds.congr
    {parent : Option Node}
    {tree : Shape Node Tag}
    (holds : Holds entry parent tree)
    (same : ∀ x ∈ tree.toList, next x = entry x) :
    Holds next parent tree := by
  induction tree generalizing parent with
  | leaf => trivial
  | node tag left top right leftHypothesis rightHypothesis =>
      obtain ⟨here, inLeft, inRight⟩ := holds
      refine ⟨?_, leftHypothesis inLeft fun x member => ?_,
        rightHypothesis inRight fun x member => ?_⟩
      · rw [same top (by simp [Shape.toList]), here]
      · exact same x (by simp [Shape.toList, member])
      · exact same x (by simp [Shape.toList, member])

theorem HoldsPath.congr
    {hole : Option Node}
    {up : Path Node Tag}
    (holds : HoldsPath entry hole up)
    (same : ∀ x, up.Has x → next x = entry x) :
    HoldsPath next hole up := by
  induction up generalizing hole with
  | top => trivial
  | frame side tag parent sibling up inductionHypothesis =>
      obtain ⟨here, inSibling, above⟩ := holds
      refine ⟨?_, inSibling.congr fun x member => ?_,
        inductionHypothesis above fun x has => ?_⟩
      · rw [same parent (Path.has_frame.mpr (.inl rfl)), here]
      · exact same x (Path.has_frame.mpr (.inr (.inl member)))
      · exact same x (Path.has_frame.mpr (.inr (.inr has)))

/-- The links of a tree, from its parts. -/
theorem linked_fill
    {links : TreeLinks Node Tag}
    {up : Path Node Tag}
    {tree : Shape Node Tag} :
    TreeLinked links (up.fill tree) ↔
      links.root = up.rootOf tree.root ∧
        HoldsPath links.entry tree.root up ∧
          Holds links.entry up.parent tree ∧ (up.fill tree).toList.Nodup := by
  constructor
  · rintro ⟨root, holds, nodup⟩
    obtain ⟨above, inside⟩ := holds_fill.mp holds
    exact ⟨root.trans (Path.root_fill up tree), above, inside, nodup⟩
  · rintro ⟨root, above, inside, nodup⟩
    exact
      ⟨root.trans (Path.root_fill up tree).symm,
        holds_fill.mpr ⟨above, inside⟩, nodup⟩

/-- The links of a node of a tree. -/
theorem TreeLinked.entry_eq
    {links : TreeLinks Node Tag}
    {up : Path Node Tag}
    {side : Side}
    {tag : Tag}
    {near far : Shape Node Tag}
    {top : Node}
    (linked : TreeLinked links (up.fill (.join side tag near top far))) :
    links.entry top =
      { child := sides side near.root far.root, parent := up.parent, tag } :=
  (holds_join.mp (holds_fill.mp linked.holds).2).1

/-- The pointer to a tree below a node is not the one to the root. -/
theorem TreeLinked.root_ne
    {links : TreeLinks Node Tag}
    {up : Path Node Tag}
    {side : Side}
    {tag : Tag}
    {near far : Shape Node Tag}
    {top : Node}
    (linked : TreeLinked links (up.fill (.join side tag near top far))) :
    near.root ≠ links.root := by
  have root := (linked_fill.mp linked).1
  rw [Shape.root_join] at root
  obtain ⟨first, isFirst, inside⟩ := up.rootOf_some top
  rw [root, isFirst]
  intro same
  obtain ⟨tag, left, right, rfl⟩ := Shape.eq_join_of_root .left same
  have member : first ∈ (Shape.join .left tag left first right).toList :=
    Shape.mem_join.mpr (.inl rfl)
  have apart := apart_of_nodup linked.nodup
  rcases inside with rfl | around
  · exact apart.topNear member
  · exact apart.nearUp first member around

section Reading

variable {links : TreeLinks Node Tag}
variable {up : Path Node Tag}
variable {side : Side}
variable {tag : Tag}
variable {near far : Shape Node Tag}
variable {top : Node}

theorem TreeLinked.child_near
    (linked : TreeLinked links (up.fill (.join side tag near top far))) :
    (links.entry top).child side = near.root := by
  rw [linked.entry_eq]
  exact sides_near ..

theorem TreeLinked.child_far
    (linked : TreeLinked links (up.fill (.join side tag near top far))) :
    (links.entry top).child side.other = far.root := by
  rw [linked.entry_eq]
  exact sides_far ..

theorem TreeLinked.parent_eq
    (linked : TreeLinked links (up.fill (.join side tag near top far))) :
    (links.entry top).parent = up.parent := by
  rw [linked.entry_eq]

theorem TreeLinked.tag_eq
    (linked : TreeLinked links (up.fill (.join side tag near top far))) :
    (links.entry top).tag = tag := by
  rw [linked.entry_eq]

end Reading

end Shapes

/-! ## Changes of the links -/

section Changes

variable {Node Tag : Type*} [DecidableEq Node]

namespace TreeLinks

variable (links : TreeLinks Node Tag)

/-- Rewrite the links of one node. -/
def set
    (x : Node)
    (entry : Entry Node Tag) : TreeLinks Node Tag :=
  { links with entry := Function.update links.entry x entry }

/-- Rewrite the pointer to a child. -/
def setChild
    (x : Node)
    (side : Side)
    (child : Option Node) : TreeLinks Node Tag :=
  links.set x
    { links.entry x with
      child := Function.update (links.entry x).child side child }

/-- Rewrite the pointer to the parent. -/
def setParent
    (x : Node)
    (parent : Option Node) : TreeLinks Node Tag :=
  links.set x { links.entry x with parent }

/-- Rewrite the tag. -/
def setTag
    (x : Node)
    (tag : Tag) : TreeLinks Node Tag :=
  links.set x { links.entry x with tag }

/-- Rewrite the pointer to the parent of a node, if there is one. -/
def setParentOf
    (node parent : Option Node) : TreeLinks Node Tag :=
  match node with
  | none => links
  | some x => links.setParent x parent

/-- A node takes the place of another one below a parent, or as the root. -/
def replaceChild
    (parent : Option Node)
    (old : Node)
    (new : Option Node) : TreeLinks Node Tag :=
  match parent with
  | none => { links with root := new }
  | some p =>
      if (links.entry p).child .left = some old then
        links.setChild p .left new
      else
        links.setChild p .right new

end TreeLinks

variable {links : TreeLinks Node Tag}
variable {x y : Node}

@[simp] theorem set_root
    (links : TreeLinks Node Tag)
    (x : Node)
    (entry : Entry Node Tag) :
    (links.set x entry).root = links.root :=
  rfl

@[simp] theorem set_self
    (links : TreeLinks Node Tag)
    (x : Node)
    (entry : Entry Node Tag) :
    (links.set x entry).entry x = entry :=
  Function.update_self ..

theorem set_of_ne
    (links : TreeLinks Node Tag)
    (entry : Entry Node Tag)
    (different : y ≠ x) :
    (links.set x entry).entry y = links.entry y :=
  Function.update_of_ne different ..

theorem setParentOf_root
    (links : TreeLinks Node Tag)
    (node parent : Option Node) :
    (links.setParentOf node parent).root = links.root := by
  cases node <;> rfl

theorem setParentOf_of_ne
    {node : Option Node}
    (links : TreeLinks Node Tag)
    (parent : Option Node)
    (different : node ≠ some y) :
    (links.setParentOf node parent).entry y = links.entry y := by
  cases node with
  | none => rfl
  | some x =>
      exact set_of_ne links _ fun same => different (congrArg some same.symm)

omit [DecidableEq Node] in
/-- A node of a tree is not the root of another one that does not have it. -/
theorem root_ne_of_not_mem
    {tree : Shape Node Tag}
    (absent : x ∉ tree.toList) :
    tree.root ≠ some x := by
  intro isTop
  obtain ⟨tag, near, far, rfl⟩ := Shape.eq_join_of_root .left isTop
  exact absent (Shape.mem_join.mpr (.inl rfl))

/-- A tree comes below another parent. -/
theorem Holds.setParentOf
    {parent : Option Node}
    {tree : Shape Node Tag}
    (new : Option Node)
    (holds : Holds links.entry parent tree)
    (nodup : tree.toList.Nodup) :
    Holds (links.setParentOf tree.root new).entry new tree := by
  cases tree with
  | leaf => trivial
  | node tag left top right =>
      obtain ⟨here, inLeft, inRight⟩ := holds
      have nodup : (Shape.join .left tag left top right).toList.Nodup := nodup
      obtain ⟨topLeft, topRight, _⟩ := nodup_join_iff.mp nodup
      refine ⟨?_, inLeft.congr fun x member => ?_,
        inRight.congr fun x member => ?_⟩
      · rw [Shape.root, TreeLinks.setParentOf, TreeLinks.setParent, set_self, here]
      · exact set_of_ne links _ fun same => topLeft (same ▸ member)
      · exact set_of_ne links _ fun same => topRight (same ▸ member)

/-- What a change of the pointer to a hole leaves as it was. -/
theorem replaceChild_of_ne
    {parent : Option Node}
    (links : TreeLinks Node Tag)
    (old : Node)
    (new : Option Node)
    (different : parent ≠ some y) :
    (links.replaceChild parent old new).entry y = links.entry y := by
  cases parent with
  | none => rfl
  | some p =>
      have apart : y ≠ p := fun same => different (congrArg some same.symm)
      rw [TreeLinks.replaceChild]
      split
      · exact set_of_ne links _ apart
      · exact set_of_ne links _ apart

/-- A pointer takes the place of another one in a hole. -/
theorem HoldsPath.replaceChild
    {old : Node}
    {up : Path Node Tag}
    (new : Option Node)
    (holds : HoldsPath links.entry (some old) up)
    (nodup : (up.before ++ up.after).Nodup)
    (absent : ¬ up.Has old)
    (root : links.root = up.rootOf (some old)) :
    HoldsPath (links.replaceChild up.parent old new).entry new up ∧
      (links.replaceChild up.parent old new).root = up.rootOf new := by
  cases up with
  | top => exact ⟨trivial, rfl⟩
  | frame side tag parent sibling up =>
      obtain ⟨here, inSibling, above⟩ := holds
      have nodup :
          (up.fill (Shape.join side tag .leaf parent sibling)).toList.Nodup := by
        have same := perm_fill (.frame side tag parent sibling up) .leaf
        exact (same.nodup_iff).mpr nodup
      have apart := apart_of_nodup nodup
      have isSide :
          ((links.entry parent).child .left = some old) ↔ side = .left := by
        rw [here]
        cases side with
        | left => exact iff_of_true rfl rfl
        | right =>
            refine iff_of_false ?_ (by decide)
            refine root_ne_of_not_mem fun member => absent ?_
            exact Path.has_frame.mpr (.inr (.inl member))
      have changed :
          links.replaceChild (some parent) old new =
            links.setChild parent side new := by
        rw [TreeLinks.replaceChild]
        cases side with
        | left => rw [if_pos (isSide.mpr rfl)]
        | right => rw [if_neg fun wrong => by cases isSide.mp wrong]
      rw [Path.parent, changed]
      refine ⟨⟨?_, inSibling.congr fun x member => ?_,
        above.congr fun x has => ?_⟩, root⟩
      · rw [TreeLinks.setChild, set_self, here, update_sides]
      · exact set_of_ne links _ fun same => apart.topFar (same ▸ member)
      · exact set_of_ne links _ fun same => apart.topUp (same ▸ has)

omit [DecidableEq Node] in
/-- The parent of a hole is around it. -/
theorem Path.parent_ne
    {up : Path Node Tag}
    (absent : ¬ up.Has x) :
    up.parent ≠ some x := by
  cases up with
  | top => exact (Option.some_ne_none x).symm
  | frame side tag parent sibling up =>
      intro same
      cases same
      exact absent (Path.has_frame.mpr (.inl rfl))

/-! ## Rotations -/

/--
A rotation to a side: the child on the other side comes to the top.  There is no
such child where the code would follow a null pointer.
-/
def TreeLinks.rotate
    (links : TreeLinks Node Tag)
    (side : Side)
    (elm : Node) : Option (TreeLinks Node Tag) :=
  match (links.entry elm).child side.other with
  | none => none
  | some tmp =>
      let inner := (links.entry tmp).child side
      let links := links.setChild elm side.other inner
      let links := links.setParentOf inner (some elm)
      let parent := (links.entry elm).parent
      let links := links.setParent tmp parent
      let links := links.replaceChild parent elm (some tmp)
      let links := links.setChild tmp side (some elm)
      some (links.setParent elm (some tmp))

/-- A rotation of the links is one of the tree. -/
theorem TreeLinked.rotate
    {up : Path Node Tag}
    {side : Side}
    {outerTag innerTag : Tag}
    {outer middle inner : Shape Node Tag}
    (linked :
      TreeLinked links
        (up.fill
          (.join side outerTag outer x (.join side innerTag middle y inner)))) :
    ∃ after,
      links.rotate side x = some after ∧
        TreeLinked after
          (up.fill
            (.join side innerTag (.join side outerTag outer x middle) y
              inner)) := by
  have nodup := linked.nodup
  obtain ⟨root, above, inside, _⟩ := linked_fill.mp linked
  obtain ⟨atX, inOuter, lower⟩ := holds_join.mp inside
  obtain ⟨atY, inMiddle, inInner⟩ := holds_join.mp lower
  rw [Shape.root_join] at root above atX
  have apart := apart_of_nodup nodup
  obtain ⟨yMiddle, yInner, middleNodup, innerNodup, middleInner⟩ :=
    nodup_join_iff.mp apart.far
  have xMiddle : x ∉ middle.toList := fun member =>
    apart.topFar (Shape.mem_join.mpr (.inr (.inl member)))
  have xy : x ≠ y := fun same =>
    apart.topFar (Shape.mem_join.mpr (.inl same))
  have yUp : ¬ up.Has y := apart.farUp y (Shape.mem_join.mpr (.inl rfl))
  have middleUp : ∀ z ∈ middle.toList, ¬ up.Has z := fun z member =>
    apart.farUp z (Shape.mem_join.mpr (.inr (.inl member)))
  let first := links.setChild x side.other middle.root
  let second := first.setParentOf middle.root (some x)
  let third := second.setParent y up.parent
  let fourth := third.replaceChild up.parent x (some y)
  let fifth := fourth.setChild y side (some x)
  let last := fifth.setParent x (some y)
  have firstElse : ∀ z, z ≠ x → first.entry z = links.entry z :=
    fun z different => set_of_ne links _ different
  have firstX :
      first.entry x =
        { links.entry x with
          child :=
            Function.update (links.entry x).child side.other middle.root } :=
    set_self ..
  have secondElse :
      ∀ z, z ∉ middle.toList → second.entry z = first.entry z :=
    fun z absent => setParentOf_of_ne first _ (root_ne_of_not_mem absent)
  have thirdElse : ∀ z, z ≠ y → third.entry z = second.entry z :=
    fun z different => set_of_ne second _ different
  have thirdY :
      third.entry y = { second.entry y with parent := up.parent } :=
    set_self ..
  have fourthElse : ∀ z, ¬ up.Has z → fourth.entry z = third.entry z :=
    fun z absent => replaceChild_of_ne third x _ (Path.parent_ne absent)
  have fifthElse : ∀ z, z ≠ y → fifth.entry z = fourth.entry z :=
    fun z different => set_of_ne fourth _ different
  have fifthY :
      fifth.entry y =
        { fourth.entry y with
          child := Function.update (fourth.entry y).child side (some x) } :=
    set_self ..
  have lastElse : ∀ z, z ≠ x → last.entry z = fifth.entry z :=
    fun z different => set_of_ne fifth _ different
  have lastX : last.entry x = { fifth.entry x with parent := some y } :=
    set_self ..
  have secondX :
      second.entry x =
        { child := sides side outer.root middle.root
          parent := up.parent
          tag := outerTag } := by
    rw [secondElse x xMiddle, firstX, atX, update_sides_other]
  have secondY : second.entry y = links.entry y := by
    rw [secondElse y yMiddle, firstElse y xy.symm]
  have rotated : links.rotate side x = some last := by
    have tmp : (links.entry x).child side.other = some y := by
      rw [atX]
      exact sides_far ..
    have inside : (links.entry y).child side = middle.root := by
      rw [atY]
      exact sides_near ..
    have parent : (second.entry x).parent = up.parent := by
      rw [secondX]
    simp only [TreeLinks.rotate, tmp, inside]
    exact congrArg some (parent ▸ rfl)
  have others :
      ∀ z, z ≠ x → z ≠ y → ¬ up.Has z → last.entry z = second.entry z := by
    intro z notX notY notUp
    rw [lastElse z notX, fifthElse z notY, fourthElse z notUp,
      thirdElse z notY]
  have thirdAbove : HoldsPath third.entry (some x) up := by
    refine above.congr fun z has => ?_
    have notX : z ≠ x := fun same => apart.topUp (same ▸ has)
    rw [thirdElse z fun same => yUp (same ▸ has),
      secondElse z fun member => middleUp z member has, firstElse z notX]
  have thirdRoot : third.root = up.rootOf (some x) :=
    (setParentOf_root first ..).trans root
  obtain ⟨fourthAbove, fourthRoot⟩ :=
    thirdAbove.replaceChild (some y) (nodup_fill_iff.mp nodup).2.1 apart.topUp
      thirdRoot
  refine ⟨last, rotated, linked_fill.mpr ⟨?_, ?_, ?_, ?_⟩⟩
  · rw [Shape.root_join]
    exact fourthRoot
  · rw [Shape.root_join]
    refine fourthAbove.congr fun z has => ?_
    rw [lastElse z fun same => apart.topUp (same ▸ has),
      fifthElse z fun same => yUp (same ▸ has)]
  · refine holds_join.mpr ⟨?_, holds_join.mpr ⟨?_, ?_, ?_⟩, ?_⟩
    · rw [lastElse y xy.symm, fifthY, fourthElse y yUp, thirdY, secondY, atY,
        update_sides, Shape.root_join]
    · rw [lastX, fifthElse x xy, fourthElse x apart.topUp, thirdElse x xy,
        secondX]
    · refine inOuter.congr fun z member => ?_
      have notX : z ≠ x := fun same => apart.topNear (same ▸ member)
      have notFar := apart.nearFar z member
      have notY : z ≠ y := fun same =>
        notFar (Shape.mem_join.mpr (.inl same))
      have notMiddle : z ∉ middle.toList := fun wrong =>
        notFar (Shape.mem_join.mpr (.inr (.inl wrong)))
      rw [others z notX notY (apart.nearUp z member), secondElse z notMiddle,
        firstElse z notX]
    · have moved : Holds second.entry (some x) middle := by
        refine
          Holds.setParentOf _ (inMiddle.congr fun z member => ?_) middleNodup
        exact firstElse z fun same => xMiddle (same ▸ member)
      refine moved.congr fun z member => ?_
      exact others z (fun same => xMiddle (same ▸ member))
        (fun same => yMiddle (same ▸ member)) (middleUp z member)
    · refine inInner.congr fun z member => ?_
      have inFar : z ∈ (Shape.join side innerTag middle y inner).toList :=
        Shape.mem_join.mpr (.inr (.inr member))
      have notX : z ≠ x := fun same => apart.topFar (same ▸ inFar)
      have notMiddle : z ∉ middle.toList := fun wrong =>
        middleInner z wrong member
      rw [others z notX (fun same => yInner (same ▸ member))
          (apart.farUp z inFar),
        secondElse z notMiddle, firstElse z notX]
  · rw [Path.toList_fill] at nodup ⊢
    cases side with
    | left =>
        simpa only [Shape.join, Shape.toList, List.append_assoc,
          List.cons_append] using nodup
    | right =>
        simpa only [Shape.join, Shape.toList, List.append_assoc,
          List.cons_append] using nodup

/-! ## Tags, and nodes that come and go -/

/-- A tag is rewritten. -/
theorem TreeLinked.setTag
    {up : Path Node Tag}
    {side : Side}
    {near far : Shape Node Tag}
    {old : Tag}
    (tag : Tag)
    (linked : TreeLinked links (up.fill (.join side old near x far))) :
    TreeLinked (links.setTag x tag) (up.fill (.join side tag near x far)) := by
  have nodup := linked.nodup
  obtain ⟨root, above, inside, _⟩ := linked_fill.mp linked
  obtain ⟨atX, inNear, inFar⟩ := holds_join.mp inside
  rw [Shape.root_join] at root above
  have apart := apart_of_nodup nodup
  refine linked_fill.mpr ⟨?_, ?_, holds_join.mpr ⟨?_, ?_, ?_⟩, ?_⟩
  · rw [Shape.root_join]
    exact root
  · rw [Shape.root_join]
    exact above.congr fun z has =>
      set_of_ne links _ fun same => apart.topUp (same ▸ has)
  · rw [TreeLinks.setTag, set_self, atX]
  · exact inNear.congr fun z member =>
      set_of_ne links _ fun same => apart.topNear (same ▸ member)
  · exact inFar.congr fun z member =>
      set_of_ne links _ fun same => apart.topFar (same ▸ member)
  · rw [Path.toList_fill] at nodup ⊢
    cases side with
    | left => exact nodup
    | right => exact nodup

/-- A node below a parent on a side, or at the root. -/
def TreeLinks.attach
    (links : TreeLinks Node Tag)
    (parent : Option Node)
    (side : Side)
    (new : Node) : TreeLinks Node Tag :=
  match parent with
  | none => { links with root := some new }
  | some p => links.setChild p side (some new)

/-- The side of a hole below its parent. -/
def Path.IsSide : Path Node Tag → Side → Prop
  | top, _ => True
  | frame side _ _ _ _, other => other = side

/-- A new node comes into an empty hole. -/
theorem TreeLinked.attach
    {up : Path Node Tag}
    {side : Side}
    (tag : Tag)
    (linked : TreeLinked links (up.fill .leaf))
    (absent : ¬ up.Has x)
    (isSide : up.IsSide side) :
    TreeLinked
      ((links.set x
          { child := fun _ => none, parent := up.parent, tag }).attach
        up.parent side x)
      (up.fill (.join side tag .leaf x .leaf)) := by
  have nodup := linked.nodup
  obtain ⟨root, above, _, _⟩ := linked_fill.mp linked
  have leaves : (fun _ => none : Side → Option Node) = sides side none none := by
    funext other
    rw [sides, ite_self]
  have nodup' :
      (up.fill (Shape.join side tag .leaf x .leaf)).toList.Nodup := by
    refine nodup_fill_iff.mpr ⟨?_, (nodup_fill_iff.mp nodup).2.1, ?_⟩
    · cases side with
      | left => exact List.nodup_singleton x
      | right => exact List.nodup_singleton x
    · intro z member
      rcases Shape.mem_join.mp member with rfl | wrong | wrong
      · exact absent
      · cases wrong
      · cases wrong
  refine linked_fill.mpr ⟨?_, ?_, holds_join.mpr ⟨?_, trivial, trivial⟩, nodup'⟩
  · rw [Shape.root_join]
    cases up with
    | top => rfl
    | frame => exact root
  · rw [Shape.root_join]
    cases up with
    | top => trivial
    | frame side' tag' parent sibling up =>
        cases isSide
        obtain ⟨here, inSibling, around⟩ := above
        have apart := apart_of_nodup nodup
        have notParent : parent ≠ x := fun same =>
          absent (Path.has_frame.mpr (.inl same.symm))
        refine ⟨?_, inSibling.congr fun z member => ?_,
          around.congr fun z has => ?_⟩
        · rw [Path.parent, TreeLinks.attach, TreeLinks.setChild, set_self,
            set_of_ne links _ notParent, here, update_sides]
        · have notX : z ≠ x := fun same =>
            absent (Path.has_frame.mpr (.inr (.inl (same ▸ member))))
          have notTop : z ≠ parent := fun same => apart.topFar (same ▸ member)
          rw [Path.parent, TreeLinks.attach, TreeLinks.setChild, set_of_ne _ _ notTop,
            set_of_ne links _ notX]
        · have notX : z ≠ x := fun same =>
            absent (Path.has_frame.mpr (.inr (.inr (same ▸ has))))
          have notTop : z ≠ parent := fun same => apart.topUp (same ▸ has)
          rw [Path.parent, TreeLinks.attach, TreeLinks.setChild, set_of_ne _ _ notTop,
            set_of_ne links _ notX]
  · have atX :
        (((links.set x
            { child := fun _ => none, parent := up.parent, tag }).attach
          up.parent side x).entry x) =
            { child := fun _ => none, parent := up.parent, tag } := by
      cases up with
      | top => exact set_self ..
      | frame side' tag' parent sibling up =>
          have notParent : x ≠ parent := fun same =>
            absent (Path.has_frame.mpr (.inl same))
          rw [Path.parent, TreeLinks.attach, TreeLinks.setChild,
            set_of_ne _ _ notParent, set_self]
    rw [atX, leaves]
    rfl

/-- A node with one child at most goes, and the child takes its place. -/
theorem TreeLinked.splice
    {up : Path Node Tag}
    {side : Side}
    {tag : Tag}
    {child : Shape Node Tag}
    (linked : TreeLinked links (up.fill (.join side tag .leaf x child))) :
    TreeLinked
      ((links.setParentOf child.root up.parent).replaceChild up.parent x
        child.root)
      (up.fill child) := by
  have nodup := linked.nodup
  obtain ⟨root, above, inside, _⟩ := linked_fill.mp linked
  obtain ⟨atX, _, inChild⟩ := holds_join.mp inside
  rw [Shape.root_join] at root above
  have apart := apart_of_nodup nodup
  have path := (nodup_fill_iff.mp nodup).2.1
  have moved := inChild.setParentOf up.parent apart.far
  have aboveMoved :
      HoldsPath (links.setParentOf child.root up.parent).entry (some x) up := by
    refine above.congr fun z has => ?_
    refine setParentOf_of_ne links _ (root_ne_of_not_mem fun member => ?_)
    exact apart.farUp z member has
  obtain ⟨replaced, newRoot⟩ :=
    aboveMoved.replaceChild child.root path apart.topUp
      ((setParentOf_root ..).trans root)
  refine linked_fill.mpr ⟨newRoot, replaced, ?_, ?_⟩
  · refine moved.congr fun z member => ?_
    exact replaceChild_of_ne _ _ _ (Path.parent_ne (apart.farUp z member))
  · exact nodup_fill_iff.mpr ⟨apart.far, path, apart.farUp⟩

/-- A node that is in no tree takes the place of a node, with its links. -/
theorem TreeLinked.substitute
    {up : Path Node Tag}
    {tag : Tag}
    {left right : Shape Node Tag}
    (linked : TreeLinked links (up.fill (.node tag left x right)))
    (absent : y ∉ (up.fill (.node tag left x right)).toList) :
    TreeLinked
      ((((links.set y (links.entry x)).replaceChild up.parent x
        (some y)).setParentOf left.root (some y)).setParentOf right.root (some y))
      (up.fill (.node tag left y right)) := by
  have nodup : (up.fill (.join .left tag left x right)).toList.Nodup :=
    linked.nodup
  obtain ⟨root, above, ⟨atX, inLeft, inRight⟩, _⟩ := linked_fill.mp linked
  have apart := apart_of_nodup nodup
  have path := (nodup_fill_iff.mp nodup).2.1
  rw [Path.toList_fill, List.mem_append, List.mem_append, Shape.toList,
    List.mem_append, List.mem_cons] at absent
  have yx : y ≠ x := fun same => absent (.inl (.inr (.inr (.inl same))))
  have yLeft : y ∉ left.toList := fun member =>
    absent (.inl (.inr (.inl member)))
  have yRight : y ∉ right.toList := fun member =>
    absent (.inl (.inr (.inr (.inr member))))
  have yUp : ¬ up.Has y := by
    rintro (member | member)
    · exact absent (.inl (.inl member))
    · exact absent (.inr member)
  let first := links.set y (links.entry x)
  let second := first.replaceChild up.parent x (some y)
  let third := second.setParentOf left.root (some y)
  let last := third.setParentOf right.root (some y)
  have firstElse : ∀ z, z ≠ y → first.entry z = links.entry z :=
    fun z different => set_of_ne links _ different
  have secondElse : ∀ z, ¬ up.Has z → second.entry z = first.entry z :=
    fun z absent => replaceChild_of_ne first x _ (Path.parent_ne absent)
  have thirdElse : ∀ z, z ∉ left.toList → third.entry z = second.entry z :=
    fun z absent => setParentOf_of_ne second _ (root_ne_of_not_mem absent)
  have lastElse : ∀ z, z ∉ right.toList → last.entry z = third.entry z :=
    fun z absent => setParentOf_of_ne third _ (root_ne_of_not_mem absent)
  have firstAbove : HoldsPath first.entry (some x) up :=
    above.congr fun z has => firstElse z fun same => yUp (same ▸ has)
  obtain ⟨secondAbove, secondRoot⟩ :=
    firstAbove.replaceChild (some y) path apart.topUp root
  show TreeLinked last (up.fill (.node tag left y right))
  refine linked_fill.mpr ⟨?_, ?_, ⟨?_, ?_, ?_⟩, ?_⟩
  · exact (setParentOf_root ..).trans ((setParentOf_root ..).trans secondRoot)
  · refine secondAbove.congr fun z has => ?_
    rw [lastElse z fun member => apart.farUp z member has,
      thirdElse z fun member => apart.nearUp z member has]
  · rw [lastElse y yRight, thirdElse y yLeft, secondElse y yUp]
    exact (set_self ..).trans atX
  · have secondLeft : Holds second.entry (some x) left := by
      refine inLeft.congr fun z member => ?_
      rw [secondElse z (apart.nearUp z member),
        firstElse z fun same => yLeft (same ▸ member)]
    refine (secondLeft.setParentOf (some y) apart.near).congr
      fun z member => ?_
    exact lastElse z (apart.nearFar z member)
  · have thirdRight : Holds third.entry (some x) right := by
      refine inRight.congr fun z member => ?_
      rw [thirdElse z fun wrong => apart.nearFar z wrong member,
        secondElse z (apart.farUp z member),
        firstElse z fun same => yRight (same ▸ member)]
    exact thirdRight.setParentOf (some y) apart.far
  · have nodup' : (Shape.join .left tag left y right).toList.Nodup :=
      nodup_join_iff.mpr
        ⟨yLeft, yRight, apart.near, apart.far, apart.nearFar⟩
    refine nodup_fill_iff.mpr ⟨nodup', path, fun z member => ?_⟩
    have member : z ∈ (Shape.join .left tag left y right).toList := member
    rcases Shape.mem_join.mp member with rfl | inside | inside
    · exact yUp
    · exact apart.nearUp z inside
    · exact apart.farUp z inside

end Changes

end RiscvWorkshop.LinkedTree
