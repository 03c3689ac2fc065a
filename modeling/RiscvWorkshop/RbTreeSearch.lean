import Mathlib
import RiscvWorkshop.RbTreeRemove
import RiscvWorkshop.SearchTree

namespace RiscvWorkshop.RbTree

open LinkedTree
open SearchTree

/-!
# Searches in red-black trees

The code follows the pointers as the comparisons send it, and it finds what
they find in the tree.  The first and the last node, and the neighbors of a
node, are those in the order of the nodes.
-/

variable {Node : Type*} [DecidableEq Node]
variable {links : RbLinks Node}
variable {up : Path Node Color}
variable {height rounds : Nat}
variable {tag : Color}
variable {tree left right : Shape Node Color}
variable {elm : Node}

/-- The tree without its colors. -/
def nodeTree : Shape Node Color → NodeTree Node
  | .leaf => .leaf
  | .node _ left top right => .node (nodeTree left) top (nodeTree right)

omit [DecidableEq Node] in
@[simp] theorem toList_nodeTree (tree : Shape Node Color) :
    (nodeTree tree).toList = tree.toList := by
  induction tree with
  | leaf => rfl
  | node tag left top right leftHypothesis rightHypothesis =>
      rw [nodeTree, NodeTree.toList, leftHypothesis, rightHypothesis]
      rfl

omit [DecidableEq Node] in
/-- The pointers of the top of a tree. -/
theorem entry_top
    (linked : TreeLinked links (up.fill (.node tag left elm right))) :
    (links.entry elm).child .left = left.root ∧
      (links.entry elm).child .right = right.root ∧
      (links.entry elm).parent = up.parent := by
  have atElm : TreeLinked links (up.fill (.join .left tag left elm right)) := linked
  exact ⟨atElm.child_near, atElm.child_far, atElm.parent_eq⟩

/-- The side of a new node, as the last comparison tells it. -/
def sideOfComp (comp : Int) : Side :=
  if comp < 0 then .left else .right

omit [DecidableEq Node] in
/-- The search for a new node ends at its place. -/
theorem searchDown_of_place
    {cmp : Node → Node → Int}
    {before after : List Node}
    (linked : TreeLinked links (up.fill tree))
    (comp : Int)
    (isSide : up.IsSide (sideOfComp comp))
    (placed : (nodeTree tree).place (cmp elm) = some (before, after))
    (enough : depth tree ≤ rounds) :
    ∃ (path : Path Node Color) (last : Int),
      searchDown links cmp elm rounds tree.root up.parent comp =
          some (.below path.parent last) ∧
        path.fill .leaf = up.fill tree ∧ path.IsSide (sideOfComp last) ∧
        path.before = up.before ++ before ∧ path.after = after ++ up.after := by
  induction tree generalizing up comp before after rounds with
  | leaf =>
      cases placed
      refine ⟨up, comp, ?_, rfl, isSide, (List.append_nil _).symm, rfl⟩
      cases rounds <;> rfl
  | node tag left top right leftHypothesis rightHypothesis =>
      obtain ⟨leftOf, rightOf, _⟩ := entry_top linked
      have enough : max (depth left) (depth right) + 1 ≤ rounds := enough
      obtain ⟨rounds, rfl⟩ :=
        Nat.exists_eq_add_of_le' (Nat.le_of_add_left_le enough)
      rw [nodeTree, NodeTree.place] at placed
      simp only [Shape.root, searchDown, leftOf, rightOf]
      split_ifs at placed ⊢ with below above
      · obtain ⟨⟨leftBefore, leftAfter⟩, inLeft, same⟩ :=
          Option.map_eq_some_iff.mp placed
        cases same
        have atLeft :
            TreeLinked links ((Path.frame .left tag top right up).fill left) :=
          linked
        have isLeft : sideOfComp (cmp elm top) = .left := if_pos below
        obtain ⟨path, last, found, filled, lastSide, sameBefore, sameAfter⟩ :=
          leftHypothesis atLeft _ isLeft inLeft
            ((le_max_left ..).trans (Nat.le_of_succ_le_succ enough))
        refine ⟨path, last, found, filled, lastSide, sameBefore, ?_⟩
        rw [sameAfter, toList_nodeTree, List.append_assoc]
        rfl
      · obtain ⟨⟨rightBefore, rightAfter⟩, inRight, same⟩ :=
          Option.map_eq_some_iff.mp placed
        cases same
        have atRight :
            TreeLinked links ((Path.frame .right tag top left up).fill right) :=
          linked
        have isRight : sideOfComp (cmp elm top) = .right := if_neg below
        obtain ⟨path, last, found, filled, lastSide, sameBefore, sameAfter⟩ :=
          rightHypothesis atRight _ isRight inRight
            ((le_max_right ..).trans (Nat.le_of_succ_le_succ enough))
        refine ⟨path, last, found, filled, lastSide, ?_, sameAfter⟩
        rw [sameBefore, toList_nodeTree, Path.before]
        simp only [List.append_assoc, List.cons_append, List.nil_append]

omit [DecidableEq Node] in
/-- The search for a new node ends at a node that is equal to it. -/
theorem searchDown_of_not_place
    {cmp : Node → Node → Int}
    (linked : TreeLinked links (up.fill tree))
    (parent : Option Node)
    (comp : Int)
    (noPlace : (nodeTree tree).place (cmp elm) = none)
    (enough : depth tree ≤ rounds) :
    ∃ tmp,
      searchDown links cmp elm rounds tree.root parent comp =
          some (.equal tmp) ∧
        (nodeTree tree).find (cmp elm) = some tmp := by
  induction tree generalizing up parent comp rounds with
  | leaf => cases noPlace
  | node tag left top right leftHypothesis rightHypothesis =>
      obtain ⟨leftOf, rightOf, _⟩ := entry_top linked
      have enough : max (depth left) (depth right) + 1 ≤ rounds := enough
      obtain ⟨rounds, rfl⟩ :=
        Nat.exists_eq_add_of_le' (Nat.le_of_add_left_le enough)
      rw [nodeTree, NodeTree.place] at noPlace
      rw [nodeTree, NodeTree.find]
      simp only [Shape.root, searchDown, leftOf, rightOf]
      split_ifs at noPlace ⊢
      · have atLeft :
            TreeLinked links ((Path.frame .left tag top right up).fill left) :=
          linked
        exact
          leftHypothesis atLeft _ _ (Option.map_eq_none_iff.mp noPlace)
            ((le_max_left ..).trans (Nat.le_of_succ_le_succ enough))
      · have atRight :
            TreeLinked links ((Path.frame .right tag top left up).fill right) :=
          linked
        exact
          rightHypothesis atRight _ _ (Option.map_eq_none_iff.mp noPlace)
            ((le_max_right ..).trans (Nat.le_of_succ_le_succ enough))
      · exact ⟨top, rfl, rfl⟩

omit [DecidableEq Node] in
/-- `RB_FIND` finds what the comparisons find. -/
theorem rbFindFrom_eq
    {cmp : Node → Int}
    (linked : TreeLinked links (up.fill tree))
    (enough : depth tree ≤ rounds) :
    rbFindFrom links cmp rounds tree.root = some ((nodeTree tree).find cmp) := by
  induction tree generalizing up rounds with
  | leaf => cases rounds <;> rfl
  | node tag left top right leftHypothesis rightHypothesis =>
      obtain ⟨leftOf, rightOf, _⟩ := entry_top linked
      have enough : max (depth left) (depth right) + 1 ≤ rounds := enough
      obtain ⟨rounds, rfl⟩ :=
        Nat.exists_eq_add_of_le' (Nat.le_of_add_left_le enough)
      rw [nodeTree, NodeTree.find]
      simp only [Shape.root, rbFindFrom, leftOf, rightOf]
      split_ifs
      · have atLeft :
            TreeLinked links ((Path.frame .left tag top right up).fill left) :=
          linked
        exact
          leftHypothesis atLeft
            ((le_max_left ..).trans (Nat.le_of_succ_le_succ enough))
      · have atRight :
            TreeLinked links ((Path.frame .right tag top left up).fill right) :=
          linked
        exact
          rightHypothesis atRight
            ((le_max_right ..).trans (Nat.le_of_succ_le_succ enough))
      · rfl

/-! ## Insertion -/

/-- `RB_INSERT` puts a new node at its place. -/
theorem rbInsert_of_place
    {cmp : Node → Node → Int}
    {before after : List Node}
    (linked : TreeLinked links tree)
    (inTree : RedBlack .black height tree)
    (absent : elm ∉ tree.toList)
    (placed : (nodeTree tree).place (cmp elm) = some (before, after))
    (enough : 2 * Nat.log 2 (tree.toList.length + 1) < rounds) :
    ∃ next,
      rbInsert links cmp rounds elm = some (none, next) ∧
        IsRb next (before ++ elm :: after) := by
  have deep := inTree.depth_le_log
  have atTop : TreeLinked links (Path.top.fill tree) := linked
  obtain ⟨path, last, found, filled, isSide, sameBefore, sameAfter⟩ :=
    searchDown_of_place atTop 0 trivial placed (deep.trans enough.le)
  obtain rfl : path.fill .leaf = tree := filled
  obtain ⟨color, total, fits, inLeaf⟩ := Fits.of_fill inTree
  cases inLeaf with
  | leaf =>
      have notAround : ¬ path.Has elm := fun has =>
        absent (Path.mem_fill_of_has has _)
      have shorter := length_add_depth_le path .leaf
      have redNode :
          RedNode
            ((links.set elm
                { child := fun _ => none, parent := path.parent, tag := Color.red }).attach
              path.parent (sideOfComp last) elm)
            elm path (.join (sideOfComp last) .red .leaf elm .leaf) 0 :=
        { linked := linked.attach .red notAround isSide
          red := .red_join .leaf .leaf
          isTop := Shape.root_join ..
          fits := fits }
      have short : path.length < rounds := by omega
      obtain ⟨next, inserted, isRb⟩ := redNode.isRb short
      rw [Path.parent] at found
      rw [sideOfComp] at inserted
      refine ⟨next, ?_, ?_⟩
      · simp only [rbInsert, linked.root, found, inserted, Option.map_some]
      · have single :
            (Shape.join (sideOfComp last) Color.red .leaf elm .leaf).toList =
              [elm] := by
          cases sideOfComp last <;> rfl
        rw [Path.toList_fill, single, sameBefore, sameAfter, Path.before,
          Path.after, List.nil_append, List.append_nil, List.append_assoc] at isRb
        exact isRb

/-- `RB_INSERT` changes nothing where it finds an equal node. -/
theorem rbInsert_of_not_place
    {cmp : Node → Node → Int}
    (linked : TreeLinked links tree)
    (inTree : RedBlack .black height tree)
    (noPlace : (nodeTree tree).place (cmp elm) = none)
    (enough : 2 * Nat.log 2 (tree.toList.length + 1) < rounds) :
    ∃ tmp,
      rbInsert links cmp rounds elm = some (some tmp, links) ∧
        (nodeTree tree).find (cmp elm) = some tmp := by
  have deep := inTree.depth_le_log.trans enough.le
  have atTop : TreeLinked links (Path.top.fill tree) := linked
  obtain ⟨tmp, found, isEqual⟩ :=
    searchDown_of_not_place atTop none 0 noPlace deep
  refine ⟨tmp, ?_, isEqual⟩
  simp only [rbInsert, linked.root, found]

/-! ## The first and the last node, and neighbors -/

omit [DecidableEq Node] in
/-- The outermost node of a tree is the first one from that side. -/
theorem outermost_eq
    (linked : TreeLinked links (up.fill tree))
    (side : Side)
    (parent : Option Node)
    (enough : depth tree ≤ rounds) :
    outermost links side rounds tree.root parent =
      some ((side.first tree.toList).or parent) := by
  induction tree generalizing up parent rounds with
  | leaf => cases rounds <;> cases side <;> rfl
  | node tag left top right leftHypothesis rightHypothesis =>
      obtain ⟨leftOf, rightOf, _⟩ := entry_top linked
      have enough : max (depth left) (depth right) + 1 ≤ rounds := enough
      obtain ⟨rounds, rfl⟩ :=
        Nat.exists_eq_add_of_le' (Nat.le_of_add_left_le enough)
      cases side with
      | left =>
          have atLeft :
              TreeLinked links ((Path.frame .left tag top right up).fill left) :=
            linked
          have nodes :
              Side.left.first (Shape.node tag left top right).toList =
                (Side.left.first left.toList).or (some top) :=
            Side.first_append ..
          rw [Shape.root, outermost, leftOf,
            leftHypothesis atLeft (some top)
              ((le_max_left ..).trans (Nat.le_of_succ_le_succ enough)),
            nodes, Option.or_assoc, Option.some_or]
      | right =>
          have atRight :
              TreeLinked links ((Path.frame .right tag top left up).fill right) :=
            linked
          have nodes :
              Side.right.first (Shape.node tag left top right).toList =
                (Side.right.first right.toList).or (some top) :=
            Side.first_append ..
          rw [Shape.root, outermost, rightOf,
            rightHypothesis atRight (some top)
              ((le_max_right ..).trans (Nat.le_of_succ_le_succ enough)),
            nodes, Option.or_assoc, Option.some_or]

omit [DecidableEq Node] in
/-- The first or the last node of a tree. -/
theorem IsRb.rbMinmax
    {nodes : List Node}
    (isRb : IsRb links nodes)
    (side : Side)
    (enough : 2 * Nat.log 2 (nodes.length + 1) ≤ rounds) :
    rbMinmax links side rounds = some (side.first nodes) := by
  obtain ⟨tree, height, linked, inTree, rfl⟩ := isRb
  have atTop : TreeLinked links (Path.top.fill tree) := linked
  rw [RbTree.rbMinmax, linked.root,
    outermost_eq atTop side none (inTree.depth_le_log.trans enough),
    Option.or_none]

/-- The code climbs to the first node on a side of the hole. -/
theorem climb_eq
    {tree : Shape Node Color}
    (linked : TreeLinked links (up.fill tree))
    (isTop : tree.root = some elm)
    (side : Side)
    (enough : up.length < rounds) :
    climb links side rounds elm = some (side.other.first (up.on side)) := by
  induction up generalizing tree elm rounds with
  | top =>
      obtain ⟨rounds, rfl⟩ := Nat.exists_eq_add_of_lt enough
      obtain ⟨tag, near, far, rfl⟩ := Shape.eq_join_of_root side isTop
      rw [climb, linked.parent_eq]
      cases side <;> rfl
  | frame hole tag parent sibling up inductionHypothesis =>
      obtain ⟨rounds, rfl⟩ :=
        Nat.exists_eq_add_of_le' (Nat.succ_le_of_lt (Nat.zero_lt_of_lt enough))
      have atParent : TreeLinked links (up.fill (.join hole tag tree parent sibling)) :=
        linked
      have parentOf : (links.entry elm).parent = some parent := by
        obtain ⟨elmTag, near, far, rfl⟩ := Shape.eq_join_of_root .left isTop
        exact linked.parent_eq
      rw [climb, parentOf]
      by_cases same : hole = side
      · subst same
        have child := atParent.child_near
        rw [isTop] at child
        simp only [child, if_true, Path.on_frame_same]
        exact
          inductionHypothesis atParent (Shape.root_join ..)
            (Nat.lt_of_succ_lt_succ enough)
      · obtain rfl := Side.eq_other_of_ne same
        have notElm : (links.entry parent).child side ≠ some elm := by
          have child := atParent.child_far
          rw [Side.other_other] at child
          rw [child]
          exact root_ne_of_nodup atParent.nodup isTop
        simp only [notElm, if_false, Path.first_on_frame_other]

omit [DecidableEq Node] in
/-- The first node beside another one is below it, or around its tree. -/
theorem first_beside
    {side : Side}
    {near far : Shape Node Color}
    {beside behind : List Node}
    (nodup : (up.fill (.join side tag near elm far)).toList.Nodup)
    (nodes :
      (up.fill (.join side tag near elm far)).toList =
        side.append beside elm behind) :
    side.other.first beside =
      (side.other.first near.toList).or (side.other.first (up.on side)) := by
  rw [nodes] at nodup
  rw [Path.toList_fill, Shape.toList_join] at nodes
  cases side with
  | left =>
      have apart := List.nodup_middle.mp nodup
      have split :
          (up.before ++ near.toList) ++ elm :: (far.toList ++ up.after) =
            beside ++ elm :: behind := by
        simpa only [Side.append, List.append_assoc, List.cons_append] using nodes
      obtain ⟨notBeside, -⟩ := List.nodup_cons.mp apart
      rw [List.mem_append, not_or] at notBeside
      obtain ⟨rfl, -⟩ :=
        (List.append_cons_inj_of_notMem notBeside.1 notBeside.2).mp split.symm
      exact List.getLast?_append
  | right =>
      have apart := List.nodup_middle.mp nodup
      have split :
          (up.before ++ far.toList) ++ elm :: (near.toList ++ up.after) =
            behind ++ elm :: beside := by
        simpa only [Side.append, List.append_assoc, List.cons_append] using nodes
      obtain ⟨notBehind, -⟩ := List.nodup_cons.mp apart
      rw [List.mem_append, not_or] at notBehind
      obtain ⟨-, -, rfl⟩ :=
        (List.append_cons_inj_of_notMem notBehind.1 notBehind.2).mp split.symm
      exact List.head?_append

/-- `RB_NEXT` and `RB_PREV` go to the neighbor in the order of the nodes. -/
theorem IsRb.rbNeighbor
    {side : Side}
    {beside behind : List Node}
    (isRb : IsRb links (side.append beside elm behind))
    (enough : 2 * Nat.log 2 ((side.append beside elm behind).length + 1) ≤ rounds) :
    rbNeighbor links side rounds elm = some (side.other.first beside) := by
  obtain ⟨whole, height, linked, inTree, nodes⟩ := isRb
  rw [← nodes] at enough
  have deep := inTree.depth_le_log.trans enough
  have member : elm ∈ whole.toList := by
    rw [nodes]
    cases side with
    | left => exact List.mem_append_right _ (List.mem_cons_self ..)
    | right => exact List.mem_append_right _ (List.mem_cons_self ..)
  obtain ⟨up, tag, left, right, rfl⟩ := Path.exists_fill_of_mem member
  have isTop : (Shape.node tag left elm right).root = some elm := rfl
  obtain ⟨top, near, far, turned⟩ := Shape.eq_join_of_root side isTop
  rw [turned] at linked nodes deep
  have shorter := length_add_depth_le up (.join side top near elm far)
  have notLeaf : 0 < depth (.join side top near elm far) := by
    cases side <;> exact Nat.succ_pos _
  have short : up.length < rounds := by omega
  have climbed := climb_eq linked (Shape.root_join ..) side short
  rw [first_beside linked.nodup nodes]
  simp only [RbTree.rbNeighbor, linked.child_near, linked.parent_eq]
  cases root : near.root with
  | some below =>
      obtain ⟨belowTag, first, second, rfl⟩ :=
        Shape.eq_join_of_root side.other root
      have inNear :
          TreeLinked links
            ((Path.frame side top elm far up).fill
              (.join side.other belowTag first below second)) :=
        linked
      have deeper :=
        length_add_depth_le (.frame side top elm far up)
          (.join side.other belowTag first below second)
      have shallow :=
        (Nat.le_add_left ..).trans (deeper.trans deep)
      have found := outermost_eq inNear side.other none shallow
      rw [root] at found
      rw [Shape.toList_join, Side.first_append] at found ⊢
      simp only [found]
      cases side.other.first first.toList <;> rfl
  | none =>
      obtain rfl := Shape.eq_leaf_of_root root
      have noneBelow :
          side.other.first (Shape.leaf : Shape Node Color).toList = none := by
        cases side <;> rfl
      rw [noneBelow, Option.none_or]
      cases up with
      | top => exact climbed
      | frame hole tag parent sibling up =>
          have atParent :
              TreeLinked links
                (up.fill
                  (.join hole tag (.join side top .leaf elm far) parent
                    sibling)) :=
            linked
          simp only [Path.parent]
          by_cases same : hole = side
          · subst same
            have notElm : (links.entry parent).child hole.other ≠ some elm := by
              rw [atParent.child_far]
              exact root_ne_of_nodup atParent.nodup (Shape.root_join ..)
            rw [if_neg notElm]
            exact climbed
          · obtain rfl := Side.eq_other_of_ne same
            rw [if_pos (atParent.child_near.trans (Shape.root_join ..)),
              Path.first_on_frame_other]

end RiscvWorkshop.RbTree
