import Mathlib
import RiscvWorkshop.RbTreeInsert

namespace RiscvWorkshop.RbTree

open LinkedTree

/-!
# A node leaves a red-black tree

After a black node went, the trees of one hole lack one black node on every way
down.  A round ends this by rotations, or takes it one node up.
-/

variable {Node : Type*} [DecidableEq Node]
variable {links : RbLinks Node}
variable {up : Path Node Color}
variable {side : Side}
variable {height : Nat}
variable {tag nearColor farColor color : Color}
variable {near far tree inner outer : Shape Node Color}
variable {elm parent tmp : Node}

/-- The black nodes that a top adds to the ways down. -/
def Color.count : Color → Nat
  | .black => 1
  | .red => 0

omit [DecidableEq Node] in
/-- A top of either color may have two black trees below it. -/
theorem RedBlack.join_blacks
    (inNear : RedBlack .black height near)
    (inFar : RedBlack .black height far)
    (tag : Color) :
    RedBlack tag (height + tag.count) (.join side tag near parent far) := by
  cases tag with
  | black => exact .black_join inNear inFar
  | red => exact .red_join inNear inFar

omit [DecidableEq Node] in
/-- The code finds a tree black if its top is, or if it is empty. -/
theorem blackOrNull_iff
    (linked : TreeLinked links (up.fill tree))
    (inTree : RedBlack color height tree) :
    blackOrNull links tree.root = true ↔ color = .black := by
  cases root : tree.root with
  | none =>
      cases inTree with
      | leaf => exact iff_of_true rfl rfl
      | red => cases root
      | black => cases root
  | some elm =>
      rw [blackOrNull, decide_eq_true_eq, tag_root linked inTree root]

omit [DecidableEq Node] in
/-- The code finds both children of a node black if they are. -/
theorem blackOrNull_children_iff
    (linked : TreeLinked links (up.fill (.join side tag near parent far)))
    (inNear : RedBlack nearColor height near)
    (inFar : RedBlack farColor height far) :
    (blackOrNull links ((links.entry parent).child .left) = true ∧
        blackOrNull links ((links.entry parent).child .right) = true) ↔
      nearColor = .black ∧ farColor = .black := by
  have atNear :
      TreeLinked links ((Path.frame side tag parent far up).fill near) :=
    linked
  have atFar :
      TreeLinked links ((Path.frame side.other tag parent near up).fill far) := by
    rw [Path.fill_far]
    exact linked
  have nearBlack := blackOrNull_iff atNear inNear
  have farBlack := blackOrNull_iff atFar inFar
  rw [← linked.child_near] at nearBlack
  rw [← linked.child_far] at farBlack
  cases side with
  | left => exact and_congr nearBlack farBlack
  | right => exact (and_congr farBlack nearBlack).trans and_comm

/-- The root of a red-black tree may be made black again. -/
theorem IsRb.blackenNode
    {nodes : List Node}
    (isRb : IsRb links nodes) :
    IsRb (blackenNode links links.root) nodes := by
  obtain ⟨tree, height, linked, inTree, same⟩ := isRb
  rw [linked.root]
  cases inTree with
  | leaf => exact ⟨_, _, linked, .leaf, same⟩
  | @black _ _ _ left right top inLeft inRight =>
      have atTop :
          TreeLinked links (Path.top.fill (.join .left .black left top right)) :=
        linked
      have made := atTop.setTag Color.black
      exact ⟨_, _, made, .black inLeft inRight, same⟩

/-! ## One round -/

/-- A black sibling is taken as it is. -/
theorem blackSibling_of_black
    {sibling : Shape Node Color}
    (linked : TreeLinked links (up.fill (.join side tag tree parent sibling)))
    (inSibling : RedBlack .black (height + 1) sibling) :
    ∃ tmp inner outer innerColor outerColor,
      sibling = .join side .black inner tmp outer ∧
        RedBlack innerColor height inner ∧ RedBlack outerColor height outer ∧
        blackSibling links side parent = some (links, tmp) := by
  obtain ⟨innerColor, outerColor, inner, tmp, outer, rfl, inInner, inOuter⟩ :=
    inSibling.of_black side
  refine
    ⟨tmp, inner, outer, innerColor, outerColor, rfl, inInner, inOuter, ?_⟩
  have child := linked.child_far
  rw [Shape.root_join] at child
  have atSibling :
      TreeLinked links
        ((Path.frame side.other tag parent tree up).fill
          (.join side .black inner tmp outer)) := by
    rw [Path.fill_far]
    exact linked
  simp only [blackSibling, child, atSibling.tag_eq, reduceCtorEq, if_false]

/-- A red sibling comes above the parent, and a black one below it. -/
theorem blackSibling_of_red
    (linked :
      TreeLinked links
        (up.fill
          (.join side .black tree parent (.join side .red inner tmp outer)))) :
    ∃ next,
      (setBlackred links tmp parent).rotate side parent = some next ∧
        TreeLinked next
          (up.fill
            (.join side .black (.join side .red tree parent inner) tmp
              outer)) := by
  have atSibling :
      TreeLinked links
        ((Path.frame side.other .black parent tree up).fill
          (.join side .red inner tmp outer)) := by
    rw [Path.fill_far]
    exact linked
  have first := atSibling.setTag .black
  rw [Path.fill_far] at first
  exact (first.setTag .red).rotate

/-- The sibling is black and has two children when the code looks at them. -/
theorem blackSibling_linked
    {sibling : Shape Node Color}
    (linked : TreeLinked links (up.fill (.join side tag tree parent sibling)))
    (fits : Fits (.frame side tag parent sibling up) .black (height + 1)) :
    ∃ next path color tmp inner outer innerColor outerColor,
      blackSibling links side parent = some (next, tmp) ∧
        TreeLinked next
          (path.fill
            (.join side color tree parent (.join side .black inner tmp outer))) ∧
        RedBlack innerColor height inner ∧ RedBlack outerColor height outer ∧
        Fits path color (height + 1 + color.count) ∧
        (color = .black → path = up) ∧
        (path.fill
            (.join side color tree parent
              (.join side .black inner tmp outer))).toList =
          (up.fill (.join side tag tree parent sibling)).toList := by
  cases fits with
  | red inSibling above =>
      obtain ⟨tmp, inner, outer, innerColor, outerColor, rfl, inInner, inOuter,
        isSibling⟩ := blackSibling_of_black linked inSibling
      exact
        ⟨links, up, .red, tmp, inner, outer, innerColor, outerColor, isSibling,
          linked, inInner, inOuter, above, fun _ => rfl, rfl⟩
  | @black _ _ _ _ siblingColor _ _ inSibling above =>
      cases siblingColor with
      | black =>
          obtain ⟨tmp, inner, outer, innerColor, outerColor, rfl, inInner,
            inOuter, isSibling⟩ := blackSibling_of_black linked inSibling
          exact
            ⟨links, up, .black, tmp, inner, outer, innerColor, outerColor,
              isSibling, linked, inInner, inOuter, above, fun _ => rfl, rfl⟩
      | red =>
          obtain ⟨inner, top, outer, rfl, inInner, inOuter⟩ :=
            inSibling.of_red side
          obtain ⟨next, rotated, turned⟩ := blackSibling_of_red linked
          have inside :
              TreeLinked next
                ((Path.frame side .black top outer up).fill
                  (.join side .red tree parent inner)) :=
            turned
          obtain ⟨tmp, near, far, nearColor, farColor, rfl, inNear, inFar,
            -⟩ := blackSibling_of_black inside inInner
          refine
            ⟨next, .frame side .black top outer up, .red, tmp, near, far,
              nearColor, farColor, ?_, inside, inNear, inFar,
              .black inOuter above, fun wrong => (by cases wrong), ?_⟩
          · have atSibling :
                TreeLinked links
                  ((Path.frame side.other .black parent tree up).fill
                    (.join side .red (.join side .black near tmp far) top
                      outer)) := by
              rw [Path.fill_far]
              exact linked
            have child := linked.child_far
            rw [Shape.root_join] at child
            have below := inside.child_far
            rw [Shape.root_join] at below
            simp only [blackSibling, child, atSibling.tag_eq, rotated, below,
              if_true, Option.map_some]
          · rw [Path.fill]
            simp only [Path.toList_fill, Shape.toList_join, Side.append_rotate]

/-- The outer child of the sibling is red when the sibling is lifted. -/
theorem redOutside_linked
    {innerColor outerColor : Color}
    (linked :
      TreeLinked links
        (up.fill
          (.join side tag tree parent (.join side .black inner tmp outer))))
    (inInner : RedBlack innerColor height inner)
    (inOuter : RedBlack outerColor height outer)
    (notBoth : ¬ (innerColor = .black ∧ outerColor = .black)) :
    ∃ next sibling inside outside insideColor,
      redOutside links side parent tmp = some (next, sibling) ∧
        TreeLinked next
          (up.fill
            (.join side tag tree parent
              (.join side .black inside sibling outside))) ∧
        RedBlack insideColor height inside ∧ RedBlack .red height outside ∧
        (Shape.join side .black inside sibling outside).toList =
          (Shape.join side .black inner tmp outer).toList := by
  have atSibling :
      TreeLinked links
        ((Path.frame side.other tag parent tree up).fill
          (.join side .black inner tmp outer)) := by
    rw [Path.fill_far]
    exact linked
  have atOuter :
      TreeLinked links
        ((Path.frame side.other .black tmp inner
            (.frame side.other tag parent tree up)).fill outer) := by
    rw [Path.fill_far]
    exact atSibling
  have outerBlack := blackOrNull_iff atOuter inOuter
  rw [← atSibling.child_far] at outerBlack
  cases outerColor with
  | red =>
      refine
        ⟨links, tmp, inner, outer, innerColor, ?_, linked, inInner, inOuter,
          rfl⟩
      rw [redOutside, if_neg fun wrong => by cases outerBlack.mp wrong]
  | black =>
      cases innerColor with
      | black => exact absurd ⟨rfl, rfl⟩ notBoth
      | red =>
          obtain ⟨first, top, second, rfl, inFirst, inSecond⟩ :=
            inInner.of_red side
          have atInner :
              TreeLinked links
                ((Path.frame side .black tmp outer
                    (.frame side.other tag parent tree up)).fill
                  (.join side .red first top second)) :=
            atSibling
          have atTmp :
              TreeLinked (links.setTag top .black)
                ((Path.frame side.other tag parent tree up).fill
                  (.join side .black (.join side .black first top second) tmp
                    outer)) :=
            atInner.setTag .black
          have colored := atTmp.setTag .red
          have turning :
              TreeLinked ((links.setTag top .black).setTag tmp .red)
                ((Path.frame side.other tag parent tree up).fill
                  (.join side.other .red outer tmp
                    (.join side.other .black second top first))) := by
            simp only [Shape.join_other]
            exact colored
          obtain ⟨next, rotated, turned⟩ := turning.rotate
          simp only [Path.fill_far, Shape.join_other] at turned
          refine
            ⟨next, top, first, .join side .red second tmp outer, .black, ?_,
              turned, inFirst, .red_join inSecond inOuter, ?_⟩
          · have child := atSibling.child_near
            rw [Shape.root_join] at child
            have below := turned.child_far
            rw [Shape.root_join] at below
            simp only [redOutside, outerBlack.mpr rfl, if_true, child, rotated,
              below, Option.map_some]
          · simp only [Shape.toList_join, Side.append_rotate]

/-- The sibling comes to the place of the parent, with its color. -/
theorem liftSibling_linked
    {innerColor : Color}
    (linked :
      TreeLinked links
        (up.fill
          (.join side tag tree parent (.join side .black inner tmp outer))))
    (inTree : RedBlack .black height tree)
    (inInner : RedBlack innerColor height inner)
    (inOuter : RedBlack .red height outer) :
    ∃ next lifted,
      liftSibling links side parent tmp = some next ∧
        TreeLinked next (up.fill lifted) ∧
        RedBlack tag (height + 1 + tag.count) lifted ∧
        lifted.toList =
          (Shape.join side tag tree parent
            (.join side .black inner tmp outer)).toList := by
  obtain ⟨first, top, second, rfl, inFirst, inSecond⟩ := inOuter.of_red side
  have atSibling :
      TreeLinked links
        ((Path.frame side.other tag parent tree up).fill
          (.join side .black inner tmp (.join side .red first top second))) := by
    rw [Path.fill_far]
    exact linked
  have tagged := atSibling.setTag tag
  rw [Path.fill_far] at tagged
  have blackened := tagged.setTag .black
  have atOuter :
      TreeLinked ((links.setTag tmp tag).setTag parent .black)
        ((Path.frame side.other tag tmp inner
            (.frame side.other .black parent tree up)).fill
          (.join side .red first top second)) := by
    rw [Path.fill_far, Path.fill_far]
    exact blackened
  have colored := atOuter.setTag .black
  rw [Path.fill_far, Path.fill_far] at colored
  obtain ⟨next, rotated, turned⟩ := colored.rotate
  refine
    ⟨next, _, ?_, turned,
      .join_blacks (.black_join inTree inInner)
        (.black_join inFirst inSecond) tag, ?_⟩
  · have atTmp :
        TreeLinked ((links.setTag tmp tag).setTag parent .black)
          ((Path.frame side.other .black parent tree up).fill
            (.join side tag inner tmp (.join side .red first top second))) := by
      rw [Path.fill_far]
      exact blackened
    have child := atTmp.child_far
    rw [Shape.root_join] at child
    simp only [liftSibling, linked.tag_eq, child, rotated]
  · simp only [Shape.toList_join, Side.append_rotate]

/-- The code finds the side of a tree that lacks a black node. -/
theorem sideOf_eq_of_fits
    {sibling : Shape Node Color}
    (linked : TreeLinked links (up.fill (.join side tag tree parent sibling)))
    (fits : Fits (.frame side tag parent sibling up) .black (height + 1)) :
    sideOf links parent tree.root = side := by
  refine sideOf_eq linked ?_
  cases root : tree.root with
  | some elm => exact root_ne_of_nodup linked.nodup root
  | none =>
      cases fits with
      | red inSibling above =>
          cases inSibling with
          | black => exact Option.some_ne_none _
      | black inSibling above =>
          cases inSibling with
          | red => exact Option.some_ne_none _
          | black => exact Option.some_ne_none _

/-- The loop of `RB_REMOVE_COLOR`: a tree that lacks a black node. -/
structure Lacking
    (links : RbLinks Node)
    (up : Path Node Color)
    (tree : Shape Node Color)
    (height : Nat) : Prop where
  linked : TreeLinked links (up.fill tree)
  black : RedBlack .black height tree
  fits : Fits up .black (height + 1)

/-- A node that gets black makes up for a black node below it. -/
theorem blackenNode_isRb
    (linked : TreeLinked links (up.fill (.join side tag near elm far)))
    (inNear : RedBlack nearColor height near)
    (inFar : RedBlack farColor height far)
    (fits : Fits up color (height + 1)) :
    IsRb (blackenNode links (some elm))
      (up.fill (.join side tag near elm far)).toList := by
  have blackened := linked.setTag Color.black
  obtain ⟨total, whole⟩ := fits.to_black.fill (.black_join inNear inFar)
  refine ⟨_, total, blackened, whole, ?_⟩
  simp only [Path.toList_fill, Shape.toList_join]

/-- A round ends the work, or the next node up lacks a black node. -/
theorem Lacking.round
    {sibling : Shape Node Color}
    (lacking :
      Lacking links (.frame side tag parent sibling up) tree height) :
    (∃ after,
      (∀ rounds,
        rbRemoveColor (rounds + 2) links (some parent) tree.root =
          some after) ∧
      IsRb after (up.fill (.join side tag tree parent sibling)).toList) ∨
    ∃ next lifted,
      (∀ rounds,
        rbRemoveColor (rounds + 1) links (some parent) tree.root =
          rbRemoveColor rounds next up.parent lifted.root) ∧
      Lacking next up lifted (height + 1) ∧
      (up.fill lifted).toList =
        (up.fill (.join side tag tree parent sibling)).toList := by
  obtain ⟨atTree, inTree, fits⟩ := lacking
  have atParent :
      TreeLinked links (up.fill (.join side tag tree parent sibling)) :=
    atTree
  have isBlack := (blackOrNull_iff atTree inTree).mpr rfl
  have notRoot := atParent.root_ne
  obtain ⟨next, path, color, tmp, inner, outer, innerColor, outerColor,
    isSibling, atNext, inInner, inOuter, above, samePath, same⟩ :=
    blackSibling_linked atParent fits
  have isSide := sideOf_eq_of_fits atParent fits
  have atTmp :
      TreeLinked next
        ((Path.frame side.other color parent tree path).fill
          (.join side .black inner tmp outer)) := by
    rw [Path.fill_far]
    exact atNext
  have children := blackOrNull_children_iff atTmp inInner inOuter
  by_cases both : innerColor = .black ∧ outerColor = .black
  · have reddened := atTmp.setTag .red
    rw [Path.fill_far] at reddened
    obtain ⟨rfl, rfl⟩ := both
    have inSibling : RedBlack .red height (.join side .red inner tmp outer) :=
      .red_join inInner inOuter
    have bothBlack := children.mpr ⟨rfl, rfl⟩
    cases color with
    | black =>
        obtain rfl := samePath rfl
        refine
          .inr ⟨next.setTag tmp .red,
            .join side .black tree parent (.join side .red inner tmp outer),
            fun rounds => ?_,
            { linked := reddened
              black := .black_join inTree inSibling
              fits := above }, ?_⟩
        · simp only [rbRemoveColor, isBlack, notRoot, isSide, isSibling,
            bothBlack, reddened.parent_eq, Shape.root_join, ne_eq,
            not_false_eq_true, and_self, if_true]
        · simp only [Path.toList_fill, Shape.toList_join] at same ⊢
          exact same
    | red =>
        refine
          .inl ⟨blackenNode (next.setTag tmp .red) (some parent),
            fun rounds => ?_, ?_⟩
        · have notBlack :
              blackOrNull (next.setTag tmp .red) (some parent) = false := by
            rw [blackOrNull, reddened.tag_eq]
            rfl
          simp only [rbRemoveColor, isBlack, notRoot, isSide, isSibling,
            bothBlack, notBlack, ne_eq, not_false_eq_true, and_self, if_true,
            Bool.false_eq_true, false_and, if_false]
        · have made := blackenNode_isRb reddened inTree inSibling above
          simp only [Path.toList_fill, Shape.toList_join] at same made ⊢
          rw [← same]
          exact made
  · obtain ⟨second, sibling', inside, outside, insideColor, isOutside, atSecond,
      inInside, inOutside, sameOutside⟩ :=
      redOutside_linked atNext inInner inOuter both
    obtain ⟨third, lifted, isLifted, atThird, inLifted, sameLifted⟩ :=
      liftSibling_linked atSecond inTree inInside inOutside
    obtain ⟨total, whole⟩ := above.fill inLifted
    have isRb : IsRb third (path.fill lifted).toList :=
      ⟨_, total, atThird, whole, rfl⟩
    refine .inl ⟨blackenNode third third.root, fun rounds => ?_, ?_⟩
    · simp only [rbRemoveColor, isBlack, notRoot, isSide, isSibling, children,
        both, isOutside, isLifted, ne_eq, not_false_eq_true, and_self, if_true,
        if_false, Option.map_some]
    · simp only [Shape.toList_join] at sameOutside sameLifted
      simp only [Path.toList_fill, Shape.toList_join] at same isRb ⊢
      rw [sameLifted, sameOutside, same] at isRb
      exact isRb.blackenNode

/-- `RB_REMOVE_COLOR` makes a red-black tree of the nodes, in their order. -/
theorem Lacking.isRb
    {rounds : Nat}
    (lacking : Lacking links up tree height)
    (enough : up.length < rounds) :
    ∃ after,
      rbRemoveColor rounds links up.parent tree.root = some after ∧
        IsRb after (up.fill tree).toList := by
  induction up generalizing links tree height rounds with
  | top =>
      obtain ⟨rounds, rfl⟩ := Nat.exists_eq_add_of_lt enough
      have atRoot : links.root = tree.root := lacking.linked.root
      have isRb : IsRb links tree.toList :=
        ⟨tree, height, lacking.linked, lacking.black, rfl⟩
      refine ⟨blackenNode links links.root, ?_, isRb.blackenNode⟩
      simp only [rbRemoveColor, atRoot, ne_eq, not_true_eq_false, and_false,
        if_false]
  | frame side tag parent sibling up inductionHypothesis =>
      rcases lacking.round with
        ⟨after, finished, isRb⟩ | ⟨next, lifted, round, lacking, same⟩
      · simp only [Path.length] at enough
        obtain ⟨more, rfl⟩ := Nat.exists_eq_add_of_le' enough
        exact ⟨after, finished (more + up.length), isRb⟩
      · cases rounds with
        | zero => exact absurd enough (Nat.not_lt_zero _)
        | succ rounds =>
            rw [Path.parent, round, Path.fill, ← same]
            exact inductionHypothesis lacking (Nat.lt_of_succ_lt_succ enough)

/-- The colors are right after a node with one child at most went. -/
theorem recolor_isRb
    {rounds : Nat}
    {child : Shape Node Color}
    (linked : TreeLinked links (up.fill child))
    (inNode : RedBlack color height (.join side color .leaf elm child))
    (fits : Fits up color height)
    (enough : up.length < rounds) :
    ∃ after,
      recolor links rounds color up.parent child.root = some after ∧
        IsRb after (up.fill child).toList := by
  cases color with
  | red =>
      obtain ⟨-, -, inChild⟩ := RedBlack.red_join_iff.mp inNode
      obtain ⟨total, whole⟩ := fits.to_black.fill inChild
      exact ⟨links, rfl, _, total, linked, whole, rfl⟩
  | black =>
      obtain ⟨_, childColor, smaller, -, rfl, -, inChild⟩ :=
        RedBlack.black_join_iff.mp inNode
      rw [recolor, if_pos rfl]
      cases childColor with
      | black =>
          have lacking : Lacking links up child smaller := ⟨linked, inChild, fits⟩
          exact lacking.isRb enough
      | red =>
          have notBlack := blackOrNull_iff linked inChild
          obtain ⟨near, top, far, rfl, inNear, inFar⟩ := inChild.of_red .left
          have made := blackenNode_isRb linked inNear inFar fits
          rw [Shape.root_join] at notBlack ⊢
          obtain ⟨rounds, rfl⟩ := Nat.exists_eq_add_of_lt enough
          refine ⟨_, ?_, made⟩
          simp only [rbRemoveColor, notBlack, reduceCtorEq, false_and, if_false]

/-! ## The removal -/

omit [DecidableEq Node] in
/-- What fits into a hole does not depend on the nodes around it. -/
theorem Fits.rename
    {below : Path Node Color}
    {sibling : Shape Node Color}
    (fits : Fits (below.onto (.frame side tag elm sibling up)) color height)
    (new : Node) :
    Fits (below.onto (.frame side tag new sibling up)) color height := by
  induction below generalizing color height with
  | top =>
      cases fits with
      | red inSibling above => exact .red inSibling above
      | black inSibling above => exact .black inSibling above
  | frame side' tag' parent' sibling' below inductionHypothesis =>
      cases fits with
      | red inSibling above =>
          exact .red inSibling (inductionHypothesis above)
      | black inSibling above =>
          exact .black inSibling (inductionHypothesis above)

omit [DecidableEq Node] in
/-- The way to the leftmost node of a tree. -/
theorem leftmost_eq
    {rounds : Nat}
    (linked : TreeLinked links (up.fill tree))
    (isTop : tree.root = some elm)
    (enough : depth tree ≤ rounds) :
    ∃ (below : Path Node Color) (color : Color) (next : Node)
        (child : Shape Node Color),
      leftmost links rounds elm = some next ∧
        tree = below.fill (.node color .leaf next child) ∧
        below.before = [] := by
  induction tree generalizing up elm rounds with
  | leaf => cases isTop
  | node tag left top right leftHypothesis _ =>
      cases isTop
      have enough : max (depth left) (depth right) + 1 ≤ rounds := enough
      obtain ⟨rounds, rfl⟩ := Nat.exists_eq_add_of_le' (Nat.le_of_add_left_le enough)
      have atTop : TreeLinked links (up.fill (.join .left tag left top right)) :=
        linked
      cases root : left.root with
      | none =>
          obtain rfl := Shape.eq_leaf_of_root root
          refine ⟨.top, tag, top, right, ?_, rfl, rfl⟩
          simp only [leftmost, atTop.child_near, root]
      | some first =>
          have atLeft :
              TreeLinked links ((Path.frame .left tag top right up).fill left) :=
            linked
          obtain ⟨below, color, next, child', isNext, rfl, noneBefore⟩ :=
            leftHypothesis atLeft root
              ((le_max_left ..).trans (Nat.le_of_succ_le_succ enough))
          refine
            ⟨below.onto (.frame .left tag top right .top), color, next, child',
              ?_, ?_, ?_⟩
          · simp only [leftmost, atTop.child_near, root, isNext]
          · rw [Path.fill_onto]
            rfl
          · rw [Path.before_onto, noneBefore]
            rfl

/-- The child of a node takes its place. -/
theorem unlink_linked
    {child : Shape Node Color}
    (linked : TreeLinked links (up.fill (.join side color .leaf elm child))) :
    TreeLinked (unlink links elm child.root) (up.fill child) := by
  simp only [unlink, linked.parent_eq]
  exact linked.splice

/-- The links of a node are moved as a substitution does it. -/
theorem takePlace_linked
    {left right : Shape Node Color}
    {next : Node}
    (linked : TreeLinked links (up.fill (.node tag left elm right)))
    (absent : next ∉ (up.fill (.node tag left elm right)).toList) :
    TreeLinked (takePlace links elm next) (up.fill (.node tag left next right)) := by
  have atElm : TreeLinked links (up.fill (.join .left tag left elm right)) := linked
  have apart := apart_of_nodup atElm.nodup
  have different : elm ≠ next := by
    rintro rfl
    have member : elm ∈ (Shape.join .left tag left elm right).toList :=
      Shape.mem_join.mpr (.inl rfl)
    refine absent ?_
    rw [Path.toList_fill]
    exact List.mem_append_left _ (List.mem_append_right _ member)
  have first :
      (links.set next (links.entry elm)).entry elm = links.entry elm :=
    set_of_ne links _ different
  have second :
      ((links.set next (links.entry elm)).replaceChild up.parent elm
          (some next)).entry elm = links.entry elm := by
    rw [replaceChild_of_ne _ _ _ (Path.parent_ne apart.topUp), first]
  have third :
      (((links.set next (links.entry elm)).replaceChild up.parent elm
          (some next)).setParentOf left.root (some next)).entry elm =
        links.entry elm := by
    rw [setParentOf_of_ne _ _ (root_ne_of_not_mem apart.topNear), second]
  have leftOf : (links.entry elm).child .left = left.root := atElm.child_near
  have rightOf : (links.entry elm).child .right = right.root := atElm.child_far
  simp only [takePlace, first, atElm.parent_eq, second, leftOf, third, rightOf]
  exact linked.substitute absent

/-- A node with one child at most is removed. -/
theorem recolor_unlink_isRb
    {rounds total : Nat}
    {child : Shape Node Color}
    (linked : TreeLinked links (up.fill (.join side tag .leaf elm child)))
    (whole : RedBlack .black total (up.fill (.join side tag .leaf elm child)))
    (enough : depth (up.fill (.join side tag .leaf elm child)) ≤ rounds) :
    ∃ after,
      recolor (unlink links elm child.root) rounds tag up.parent child.root =
        some after ∧
      IsRb after (up.before ++ child.toList ++ up.after) := by
  obtain ⟨color, height, fits, inNode⟩ := Fits.of_fill whole
  have deep := length_add_depth_le up (.join side tag .leaf elm child)
  have notLeaf : 0 < depth (.join side tag .leaf elm child) := by
    cases side <;> exact Nat.succ_pos _
  obtain rfl : color = tag := by
    cases tag with
    | red => exact (RedBlack.red_join_iff.mp inNode).1
    | black =>
        obtain ⟨_, _, _, isBlack, _⟩ := RedBlack.black_join_iff.mp inNode
        exact isBlack
  rw [← Path.toList_fill]
  exact recolor_isRb (unlink_linked linked) inNode fits (by omega)

/-- A node with two children is removed: the next node takes its place. -/
theorem recolor_takePlace_isRb
    {rounds total : Nat}
    {left child : Shape Node Color}
    {below : Path Node Color}
    {next : Node}
    (linked :
      TreeLinked links
        (up.fill
          (.node tag left elm (below.fill (.node color .leaf next child)))))
    (whole :
      RedBlack .black total
        (up.fill
          (.node tag left elm (below.fill (.node color .leaf next child)))))
    (enough :
      depth
          (up.fill
            (.node tag left elm
              (below.fill (.node color .leaf next child)))) ≤
        rounds) :
    ∃ after,
      recolor (takePlace (unlink links next child.root) elm next) rounds color
          (if ((unlink links next child.root).entry next).parent = some elm then
            some next
          else
            (links.entry next).parent)
          child.root =
        some after ∧
      IsRb after
        (up.before ++ (left.toList ++ next :: (below.fill child).toList) ++
          up.after) := by
  have inside :
      TreeLinked links
        (up.fill
          (.join .left tag left elm (below.fill (.node color .leaf next child)))) :=
    linked
  have apartElm := apart_of_nodup inside.nodup
  have filled :
      ∀ tree, (below.onto (.frame .right tag elm left up)).fill tree =
        up.fill (.node tag left elm (below.fill tree)) :=
    fun tree => Path.fill_onto ..
  rw [← filled] at linked whole enough
  have atNext :
      TreeLinked links
        ((below.onto (.frame .right tag elm left up)).fill
          (.join .left color .leaf next child)) :=
    linked
  have apart := apart_of_nodup atNext.nodup
  have unlinked := unlink_linked atNext
  rw [filled] at unlinked
  have absent :
      next ∉ (up.fill (.node tag left elm (below.fill child))).toList := by
    rw [← filled, Path.toList_fill, List.mem_append, List.mem_append]
    rintro ((before | inChild) | after)
    · exact apart.topUp (.inl before)
    · exact apart.topFar inChild
    · exact apart.topUp (.inr after)
  have sameEntry :
      (unlink links next child.root).entry next = links.entry next := by
    simp only [unlink, atNext.parent_eq]
    rw [replaceChild_of_ne _ _ _ (Path.parent_ne apart.topUp),
      setParentOf_of_ne _ _ (root_ne_of_not_mem apart.topFar)]
  have taken := takePlace_linked unlinked absent
  have parent :
      (if ((unlink links next child.root).entry next).parent = some elm then
          some next
        else
          (links.entry next).parent) =
        (below.onto (.frame .right tag next left up)).parent := by
    rw [sameEntry, atNext.parent_eq]
    cases below with
    | top => exact if_pos rfl
    | frame side' tag' parent' sibling' below =>
        refine if_neg fun same => apartElm.topFar ?_
        cases same
        exact Path.mem_fill_of_has (Path.has_frame.mpr (.inl rfl)) _
  obtain ⟨nextColor, height, fits, inNode⟩ := Fits.of_fill whole
  obtain rfl : nextColor = color := by
    cases inNode with
    | red => rfl
    | black => rfl
  have deep :=
    length_add_depth_le (below.onto (.frame .right tag elm left up))
      (.node nextColor .leaf next child)
  have notLeaf : 0 < depth (.node nextColor .leaf next child) := Nat.succ_pos _
  have shorter :
      (below.onto (.frame .right tag next left up)).length =
        (below.onto (.frame .right tag elm left up)).length := by
    rw [Path.length_onto, Path.length_onto]
    rfl
  have refilled :
      (below.onto (.frame .right tag next left up)).fill child =
        up.fill (.node tag left next (below.fill child)) :=
    Path.fill_onto ..
  have nodes :
      (up.fill (.node tag left next (below.fill child))).toList =
        up.before ++ (left.toList ++ next :: (below.fill child).toList) ++
          up.after :=
    Path.toList_fill ..
  rw [parent, ← nodes, ← refilled]
  rw [← refilled] at taken
  have inNext :
      RedBlack nextColor height (.join .left nextColor .leaf next child) :=
    inNode
  exact recolor_isRb taken inNext (fits.rename next) (by omega)

/-- `RB_REMOVE` takes one node out, and keeps the others in their order. -/
theorem IsRb.rbRemove
    {rounds : Nat}
    {nodes : List Node}
    (isRb : IsRb links nodes)
    (member : elm ∈ nodes)
    (enough : 2 * Nat.log 2 (nodes.length + 1) ≤ rounds) :
    ∃ after,
      rbRemove links rounds elm = some after ∧ IsRb after (nodes.erase elm) := by
  obtain ⟨tree, total, linked, whole, rfl⟩ := isRb
  have enough := whole.depth_le_log.trans enough
  obtain ⟨up, tag, left, right, rfl⟩ := Path.exists_fill_of_mem member
  have atElm : TreeLinked links (up.fill (.join .left tag left elm right)) := linked
  have apart := apart_of_nodup atElm.nodup
  have erased :
      (up.fill (.node tag left elm right)).toList.erase elm =
        up.before ++ (left.toList ++ right.toList) ++ up.after := by
    rw [Path.toList_fill, Shape.toList, List.append_assoc, List.append_assoc,
      List.erase_append_right _ fun before => apart.topUp (.inl before),
      List.erase_append_right _ apart.topNear, List.cons_append,
      List.erase_cons_head, List.append_assoc, List.append_assoc]
  have leftOf : (links.entry elm).child .left = left.root := atElm.child_near
  have rightOf : (links.entry elm).child .right = right.root := atElm.child_far
  rw [erased]
  simp only [RbTree.rbRemove, leftOf, rightOf, atElm.tag_eq, atElm.parent_eq]
  cases leftRoot : left.root with
  | none =>
      obtain rfl := Shape.eq_leaf_of_root leftRoot
      exact recolor_unlink_isRb atElm whole enough
  | some first =>
      cases rightRoot : right.root with
      | none =>
          obtain rfl := Shape.eq_leaf_of_root rightRoot
          have turned :
              TreeLinked links (up.fill (.join .right tag .leaf elm left)) :=
            linked
          have made := recolor_unlink_isRb turned whole enough
          rw [leftRoot] at made
          rw [Shape.toList, List.append_nil]
          exact made
      | some second =>
          have atRight :
              TreeLinked links ((Path.frame .right tag elm left up).fill right) :=
            linked
          have deep : depth right ≤ rounds :=
            (Nat.le_add_left ..).trans
              ((length_add_depth_le (.frame .right tag elm left up) right).trans
                enough)
          obtain ⟨below, color, next, child, isNext, rfl, noneBefore⟩ :=
            leftmost_eq atRight rightRoot deep
          have atNext :
              TreeLinked links
                ((below.onto (.frame .right tag elm left up)).fill
                  (.join .left color .leaf next child)) := by
            rw [Path.fill_onto]
            exact linked
          have childOf : (links.entry next).child .right = child.root :=
            atNext.child_far
          have nodes :
              (below.fill (.node color .leaf next child)).toList =
                next :: (below.fill child).toList := by
            rw [Path.toList_fill, Path.toList_fill, noneBefore]
            rfl
          have made := recolor_takePlace_isRb linked whole enough
          simp only [isNext, childOf, atNext.tag_eq, nodes]
          exact made

end RiscvWorkshop.RbTree
