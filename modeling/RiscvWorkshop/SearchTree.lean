import Mathlib

namespace RiscvWorkshop.SearchTree

/-!
# Binary search trees as their insertion and removal build them

A new node goes where the comparisons with the nodes on the way down send it.
Nothing requires that the comparisons agree with the order of the nodes that
are already there: a tree is only known by its nodes from left to right, and
rebalancing keeps these.
-/

/-- A binary tree of nodes. -/
inductive NodeTree (Node : Type*) where
  | leaf
  | node (left : NodeTree Node) (top : Node) (right : NodeTree Node)
deriving Repr, DecidableEq

namespace NodeTree

variable {Node : Type*}

/-- The nodes from left to right. -/
def toList : NodeTree Node → List Node
  | leaf => []
  | node left top right => left.toList ++ top :: right.toList

/--
The nodes before and after the place where the comparisons lead; none when one
of them finds an equal node.
-/
def place (compare : Node → Int) : NodeTree Node → Option (List Node × List Node)
  | leaf => some ([], [])
  | node left top right =>
      if compare top < 0 then
        (left.place compare).map fun (before, after) =>
          (before, after ++ top :: right.toList)
      else if 0 < compare top then
        (right.place compare).map fun (before, after) =>
          (left.toList ++ top :: before, after)
      else
        none

/-- Insert a node below the last node on the way down. -/
def insert (compare : Node → Int) (new : Node) : NodeTree Node → Option (NodeTree Node)
  | leaf => some (node leaf new leaf)
  | node left top right =>
      if compare top < 0 then
        (left.insert compare new).map fun left => node left top right
      else if 0 < compare top then
        (right.insert compare new).map fun right => node left top right
      else
        none

/-- The node that the comparisons lead to, if one of them finds it equal. -/
def find (compare : Node → Int) : NodeTree Node → Option Node
  | leaf => none
  | node left top right =>
      if compare top < 0 then
        left.find compare
      else if 0 < compare top then
        right.find compare
      else
        some top

/-- The leftmost node of a tree with a top, and the tree without it. -/
def takeLeftmost : NodeTree Node → Node → NodeTree Node → Node × NodeTree Node
  | leaf, top, right => (top, right)
  | node left next middle, top, right =>
      let (first, rest) := takeLeftmost left next middle
      (first, node rest top right)

/-- Put the successor of a removed node in its place. -/
def join (left right : NodeTree Node) : NodeTree Node :=
  match left, right with
  | leaf, right => right
  | left, leaf => left
  | left, node above top below =>
      let (successor, rest) := takeLeftmost above top below
      node left successor rest

/-- Remove a node. -/
def remove [DecidableEq Node] (old : Node) : NodeTree Node → NodeTree Node
  | leaf => leaf
  | node left top right =>
      if old ∈ left.toList then
        node (left.remove old) top right
      else if top = old then
        join left right
      else
        node left top (right.remove old)

/-- The place of a node splits the nodes of the tree. -/
theorem place_append
    {compare : Node → Int}
    {tree : NodeTree Node}
    {before after : List Node}
    (placed : tree.place compare = some (before, after)) :
    tree.toList = before ++ after := by
  induction tree generalizing before after with
  | leaf =>
      cases placed
      rfl
  | node left top right leftHypothesis rightHypothesis =>
      rw [place] at placed
      split_ifs at placed
      · obtain ⟨⟨leftBefore, leftAfter⟩, inLeft, shape⟩ :=
          Option.map_eq_some_iff.mp placed
        cases shape
        rw [toList, leftHypothesis inLeft, List.append_assoc]
      · obtain ⟨⟨rightBefore, rightAfter⟩, inRight, shape⟩ :=
          Option.map_eq_some_iff.mp placed
        cases shape
        rw [toList, rightHypothesis inRight, List.append_assoc,
          List.cons_append]

/-- The place of a node that comes after all others is at the end. -/
theorem place_of_forall_pos
    {compare : Node → Int}
    {tree : NodeTree Node}
    (after : ∀ other ∈ tree.toList, 0 < compare other) :
    tree.place compare = some (tree.toList, []) := by
  induction tree with
  | leaf =>
      rfl
  | node left top right _ rightHypothesis =>
      have afterTop : 0 < compare top :=
        after top (by simp [toList])
      have afterRight : ∀ other ∈ right.toList, 0 < compare other :=
        fun other member => after other (by simp [toList, member])
      rw [place, if_neg (by omega), if_pos afterTop,
        rightHypothesis afterRight]
      rfl

/-- The place of a node is between those it comes after and the others. -/
theorem place_of_split
    {compare : Node → Int}
    {tree : NodeTree Node}
    {before after : List Node}
    (nodes : tree.toList = before ++ after)
    (positive : ∀ node ∈ before, 0 < compare node)
    (negative : ∀ node ∈ after, compare node < 0) :
    tree.place compare = some (before, after) := by
  induction tree generalizing before after with
  | leaf =>
      obtain ⟨rfl, rfl⟩ := List.append_eq_nil_iff.mp nodes.symm
      rfl
  | node left top right leftHypothesis rightHypothesis =>
      rw [toList] at nodes
      have atLeft : ∀ {between},
          left.toList = before ++ between →
            after = between ++ top :: right.toList →
              (node left top right).place compare = some (before, after) := by
        rintro between leftNodes rfl
        have below := negative top (by simp)
        rw [place, if_pos below,
          leftHypothesis leftNodes positive fun node member =>
            negative node (List.mem_append_left _ member)]
        rfl
      rcases List.append_eq_append_iff.mp nodes with
        ⟨rest, shape, others⟩ | ⟨between, leftNodes, shape⟩
      · cases rest with
        | nil =>
            have noneBetween : after = [] ++ top :: right.toList := others.symm
            rw [List.append_nil] at shape
            exact atLeft (by rw [shape, List.append_nil]) noneBetween
        | cons first rest =>
            obtain ⟨rfl, rightNodes⟩ := List.cons.inj others
            have above := positive top (by simp [shape])
            rw [place, if_neg above.le.not_gt, if_pos above,
              rightHypothesis rightNodes
                (fun node member => positive node (by simp [shape, member]))
                negative, shape]
            rfl
      · exact atLeft leftNodes shape

/-- There is no place after the others when the last of them is equal. -/
theorem place_eq_none_of_last
    {compare : Node → Int}
    {tree : NodeTree Node}
    {others : List Node}
    {last : Node}
    (nodes : tree.toList = others ++ [last])
    (after : ∀ other ∈ others, 0 < compare other)
    (equal : compare last = 0) :
    tree.place compare = none := by
  induction tree generalizing others with
  | leaf =>
      simp [toList] at nodes
  | node left top right _ rightHypothesis =>
      rw [toList] at nodes
      rcases List.eq_nil_or_concat right.toList with
        rightEmpty | ⟨rightOthers, rightLast, rightNodes⟩
      · rw [rightEmpty] at nodes
        obtain ⟨-, isLast⟩ := List.append_inj' nodes rfl
        cases isLast
        rw [place, if_neg (by omega), if_neg (by omega)]
      · rw [rightNodes, List.concat_eq_append, ← List.cons_append,
          ← List.append_assoc] at nodes
        obtain ⟨sameOthers, sameLast⟩ := List.append_inj' nodes rfl
        cases sameLast
        have afterTop : 0 < compare top :=
          after top (by simp [← sameOthers])
        rw [place, if_neg (by omega), if_pos afterTop,
          rightHypothesis (by rw [rightNodes, List.concat_eq_append])
            fun other member => after other (by simp [← sameOthers, member])]
        rfl

/--
When the comparisons agree with the order of the nodes, a search finds the
first node that they find equal.
-/
theorem find_eq_find?
    {compare : Node → Int}
    {tree : NodeTree Node}
    (sorted :
      tree.toList.Pairwise fun earlier later =>
        0 < compare earlier ∨ compare later < 0) :
    tree.find compare = tree.toList.find? (compare · = 0) := by
  induction tree with
  | leaf =>
      rfl
  | node left top right leftHypothesis rightHypothesis =>
      rw [toList, List.pairwise_append, List.pairwise_cons] at sorted
      obtain ⟨leftSorted, ⟨topRight, rightSorted⟩, across⟩ := sorted
      rw [find, toList, List.find?_append]
      by_cases below : compare top < 0
      · have noneRight : (top :: right.toList).find? (compare · = 0) = none := by
          rw [List.find?_eq_none]
          intro node member
          rcases List.mem_cons.mp member with rfl | inRight
          · simpa using below.ne
          · have later := (topRight node inRight).resolve_left (by omega)
            simpa using later.ne
        rw [if_pos below, leftHypothesis leftSorted, noneRight, Option.or_none]
      · have noneLeft : left.toList.find? (compare · = 0) = none := by
          rw [List.find?_eq_none]
          intro node member
          have earlier :=
            (across node member top List.mem_cons_self).resolve_right below
          simpa using earlier.ne'
        rw [if_neg below, noneLeft, Option.none_or]
        by_cases above : 0 < compare top
        · rw [if_pos above, rightHypothesis rightSorted,
            List.find?_cons_of_neg (by simpa using above.ne')]
        · rw [if_neg above, List.find?_cons_of_pos (by simp; omega)]

/-- There is no place exactly where a search finds an equal node. -/
theorem place_eq_none_iff
    {compare : Node → Int}
    {tree : NodeTree Node} :
    tree.place compare = none ↔ ∃ node, tree.find compare = some node := by
  induction tree with
  | leaf =>
      simp [place, find]
  | node left top right leftHypothesis rightHypothesis =>
      rw [place, find]
      split_ifs
      · rw [Option.map_eq_none_iff, leftHypothesis]
      · rw [Option.map_eq_none_iff, rightHypothesis]
      · simp

/-- Insertion succeeds where there is a place, and puts the node there. -/
theorem insert_of_place
    {compare : Node → Int}
    {tree : NodeTree Node}
    {before after : List Node}
    (new : Node)
    (placed : tree.place compare = some (before, after)) :
    ∃ grown,
      tree.insert compare new = some grown ∧
        grown.toList = before ++ new :: after := by
  induction tree generalizing before after with
  | leaf =>
      cases placed
      exact ⟨_, rfl, rfl⟩
  | node left top right leftHypothesis rightHypothesis =>
      rw [place] at placed
      rw [insert]
      split_ifs at placed ⊢
      · obtain ⟨⟨leftBefore, leftAfter⟩, inLeft, shape⟩ :=
          Option.map_eq_some_iff.mp placed
        cases shape
        obtain ⟨grown, inserted, nodes⟩ := leftHypothesis inLeft
        refine ⟨node grown top right, by rw [inserted]; rfl, ?_⟩
        rw [toList, nodes, List.append_assoc, List.cons_append]
      · obtain ⟨⟨rightBefore, rightAfter⟩, inRight, shape⟩ :=
          Option.map_eq_some_iff.mp placed
        cases shape
        obtain ⟨grown, inserted, nodes⟩ := rightHypothesis inRight
        refine ⟨node left top grown, by rw [inserted]; rfl, ?_⟩
        rw [toList, nodes, List.append_assoc, List.cons_append]

/-- Insertion fails exactly where there is no place. -/
theorem insert_eq_none_iff
    {compare : Node → Int}
    {tree : NodeTree Node}
    (new : Node) :
    tree.insert compare new = none ↔ tree.place compare = none := by
  induction tree with
  | leaf =>
      simp [insert, place]
  | node left top right leftHypothesis rightHypothesis =>
      rw [insert, place]
      split_ifs
      · rw [Option.map_eq_none_iff, Option.map_eq_none_iff, leftHypothesis]
      · rw [Option.map_eq_none_iff, Option.map_eq_none_iff, rightHypothesis]
      · simp

/-- An insertion that succeeded had a place. -/
theorem place_of_insert
    {compare : Node → Int}
    {tree grown : NodeTree Node}
    {new : Node}
    (inserted : tree.insert compare new = some grown) :
    ∃ before after,
      tree.place compare = some (before, after) ∧
        grown.toList = before ++ new :: after := by
  cases placed : tree.place compare with
  | none =>
      rw [(insert_eq_none_iff new).mpr placed] at inserted
      cases inserted
  | some sides =>
      obtain ⟨before, after⟩ := sides
      obtain ⟨other, sameInserted, nodes⟩ := insert_of_place new placed
      rw [inserted] at sameInserted
      cases sameInserted
      exact ⟨before, after, rfl, nodes⟩

theorem takeLeftmost_toList
    (left : NodeTree Node)
    (top : Node)
    (right : NodeTree Node) :
    (takeLeftmost left top right).1 :: (takeLeftmost left top right).2.toList =
      left.toList ++ top :: right.toList := by
  induction left generalizing top right with
  | leaf =>
      rfl
  | node left next middle leftHypothesis _ =>
      rw [takeLeftmost, toList, toList, ← leftHypothesis]
      simp

theorem join_toList
    (left right : NodeTree Node) :
    (join left right).toList = left.toList ++ right.toList := by
  cases left with
  | leaf =>
      cases right <;> rfl
  | node above top below =>
      cases right with
      | leaf =>
          simp [join, toList]
      | node rightAbove rightTop rightBelow =>
          have successor := takeLeftmost_toList rightAbove rightTop rightBelow
          rw [join, toList, successor]
          · rfl
          · rintro ⟨⟩

/-- Removal takes one node out and keeps the order of the others. -/
theorem remove_toList
    [DecidableEq Node]
    (old : Node)
    (tree : NodeTree Node) :
    (tree.remove old).toList = tree.toList.erase old := by
  induction tree with
  | leaf =>
      rfl
  | node left top right leftHypothesis rightHypothesis =>
      rw [remove, toList, List.erase_append]
      split_ifs with inLeft isTop
      · rw [toList, leftHypothesis]
      · rw [join_toList, isTop, List.erase_cons_head]
      · rw [toList, rightHypothesis, List.erase_cons_tail (by simpa using isTop)]

end NodeTree

/-- What rebalancing does after a node came or went: the node order stays. -/
structure Rebalancing (Node : Type*) where
  afterInsert : NodeTree Node → NodeTree Node
  afterRemove : NodeTree Node → NodeTree Node
  afterInsert_toList : ∀ tree, (afterInsert tree).toList = tree.toList
  afterRemove_toList : ∀ tree, (afterRemove tree).toList = tree.toList

/-- Trees that are never rebalanced. -/
def Rebalancing.never
    (Node : Type*) : Rebalancing Node where
  afterInsert := id
  afterRemove := id
  afterInsert_toList := fun _ => rfl
  afterRemove_toList := fun _ => rfl

end RiscvWorkshop.SearchTree
