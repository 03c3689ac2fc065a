import Mathlib
import RiscvWorkshop.RbTreeBalance

namespace RiscvWorkshop.RbTree

open LinkedTree

/-!
# A node comes into a red-black tree

A red node with a red parent is all that may be wrong.  A round takes the red
pair two nodes up, or ends it by a rotation.
-/

variable {Node : Type*} [DecidableEq Node]

/-- The pointers are those of a red-black tree of some nodes, in their order. -/
def IsRb
    (links : RbLinks Node)
    (nodes : List Node) : Prop :=
  ∃ tree height,
    TreeLinked links tree ∧ RedBlack .black height tree ∧ tree.toList = nodes

variable {links : RbLinks Node}
variable {up : Path Node Color}
variable {side : Side}
variable {height : Nat}
variable {tag nearColor farColor : Color}
variable {near far : Shape Node Color}
variable {elm parent : Node}

/-- A node is on the side where the code finds it. -/
theorem sideOf_eq
    (linked : TreeLinked links (up.fill (.join side tag near parent far)))
    (different : far.root ≠ near.root) :
    sideOf links parent near.root = side := by
  rw [sideOf, linked.entry_eq]
  cases side with
  | left => exact if_pos rfl
  | right => exact if_neg different

omit [DecidableEq Node] in
/-- The children of a node are different nodes. -/
theorem root_ne_of_nodup
    (nodup : (up.fill (.join side tag near parent far)).toList.Nodup)
    (isTop : near.root = some elm) :
    far.root ≠ some elm := by
  obtain ⟨nodeTag, left, right, rfl⟩ := Shape.eq_join_of_root .left isTop
  have apart := apart_of_nodup nodup
  exact
    root_ne_of_not_mem
      (apart.nearFar elm (Shape.mem_join.mpr (.inl rfl)))

omit [DecidableEq Node] in
/-- The color of a node is that of its tree. -/
theorem tag_root
    {tree : Shape Node Color}
    {color : Color}
    (linked : TreeLinked links (up.fill tree))
    (inTree : RedBlack color height tree)
    (isTop : tree.root = some elm) :
    (links.entry elm).tag = color := by
  obtain ⟨elmTag, left, right, rfl⟩ := Shape.eq_join_of_root .left isTop
  rw [linked.tag_eq]
  cases inTree with
  | red => rfl
  | black => rfl

omit [DecidableEq Node] in
/-- A node is the uncle that the code looks for if it is red. -/
theorem redUncle_eq
    {tree : Shape Node Color}
    {color : Color}
    (linked : TreeLinked links (up.fill tree))
    (inTree : RedBlack color height tree) :
    redUncle links tree.root = if color = .red then tree.root else none := by
  cases root : tree.root with
  | none => rw [ite_self]; rfl
  | some uncle =>
      simp only [redUncle, Option.filter_some, tag_root linked inTree root,
        decide_eq_true_eq]

/-- The work ends with the root made black. -/
theorem blackenRoot_isRb
    (linked : TreeLinked links (.join side tag near elm far))
    (inNear : RedBlack nearColor height near)
    (inFar : RedBlack farColor height far) :
    ∃ after,
      blackenRoot links = some after ∧
        IsRb after (Shape.join side tag near elm far).toList := by
  have root : links.root = some elm :=
    linked.root.trans (Shape.root_join ..)
  have linked : TreeLinked links (Path.top.fill (.join side tag near elm far)) :=
    linked
  refine ⟨links.setTag elm .black, ?_, ?_⟩
  · rw [blackenRoot, root, Option.map_some]
  · exact
      ⟨_, _, linked.setTag .black, .black_join inNear inFar, by
        simp only [Shape.toList_join]⟩

/-- The work ends where a red node has a black parent. -/
theorem blackenRoot_of_fits
    {tree : Shape Node Color}
    {color : Color}
    (linked : TreeLinked links (up.fill tree))
    (inTree : RedBlack color height tree)
    (fits : Fits up color height)
    (isTop : tree.root = some elm) :
    ∃ after,
      blackenRoot links = some after ∧ IsRb after (up.fill tree).toList := by
  obtain ⟨total, whole⟩ := fits.fill inTree
  have member : elm ∈ (up.fill tree).toList := by
    obtain ⟨elmTag, left, right, rfl⟩ := Shape.eq_join_of_root .left isTop
    rw [Path.toList_fill]
    exact
      List.mem_append_left _
        (List.mem_append_right _ (Shape.mem_join.mpr (.inl rfl)))
  generalize up.fill tree = rebuilt at *
  cases whole with
  | leaf => cases member
  | @black _ _ smaller left right top inLeft inRight =>
      have atTop : TreeLinked links (.join .left .black left top right) := linked
      exact blackenRoot_isRb atTop inLeft inRight

/-! ## One round -/

/-- The uncle of a red pair is red: it gets black with the parent. -/
theorem recolorUncle_linked
    {innerSide : Side}
    {tree sibling left right : Shape Node Color}
    {gparent uncle : Node}
    (linked :
      TreeLinked links
        (up.fill
          (.join side .black (.join innerSide .red tree parent sibling) gparent
            (.join .left .red left uncle right)))) :
    TreeLinked (setBlackred (links.setTag uncle .black) parent gparent)
      (up.fill
        (.join side .red (.join innerSide .black tree parent sibling) gparent
          (.join .left .black left uncle right))) := by
  have atUncle :
      TreeLinked links
        ((Path.frame side.other .black gparent
            (.join innerSide .red tree parent sibling) up).fill
          (.join .left .red left uncle right)) := by
    rw [Path.fill_far]
    exact linked
  have first := atUncle.setTag .black
  rw [Path.fill_far] at first
  have atParent :
      TreeLinked (links.setTag uncle .black)
        ((Path.frame side .black gparent (.join .left .black left uncle right)
            up).fill
          (.join innerSide .red tree parent sibling)) :=
    first
  have second :
      TreeLinked ((links.setTag uncle .black).setTag parent .black)
        (up.fill
          (.join side .black (.join innerSide .black tree parent sibling)
            gparent (.join .left .black left uncle right))) :=
    atParent.setTag .black
  exact second.setTag .red

/-- The red pair is outside after the inner node was turned there. -/
theorem turnOutside_linked
    {innerSide : Side}
    {tree sibling : Shape Node Color}
    (linked :
      TreeLinked links (up.fill (.join innerSide .red tree parent sibling)))
    (inTree : RedBlack .red height tree)
    (isTop : tree.root = some elm)
    (inSibling : RedBlack .black height sibling)
    (side : Side) :
    ∃ after upper lower first second third,
      turnOutside links side parent elm = some (after, upper, lower) ∧
        TreeLinked after
          (up.fill
            (.join side .red (.join side .red first lower second) upper
              third)) ∧
        RedBlack .black height first ∧ RedBlack .black height second ∧
        RedBlack .black height third ∧
        (Shape.join side .red (.join side .red first lower second) upper
            third).toList =
          (Shape.join innerSide .red tree parent sibling).toList := by
  obtain ⟨first, top, second, rfl, inFirst, inSecond⟩ := inTree.of_red side
  rw [Shape.root_join] at isTop
  obtain rfl := Option.some.inj isTop
  by_cases outside : innerSide = side
  · subst outside
    have other : (links.entry parent).child innerSide.other ≠ some top := by
      rw [linked.child_far]
      exact root_ne_of_nodup linked.nodup (Shape.root_join ..)
    exact
      ⟨links, parent, top, first, second, sibling, if_neg other, linked,
        inFirst, inSecond, inSibling, rfl⟩
  · obtain rfl := Side.eq_other_of_ne outside
    have child : (links.entry parent).child side.other = some top := by
      rw [linked.child_near, Shape.root_join]
    rw [Shape.join_other] at linked ⊢
    obtain ⟨after, rotated, linked⟩ := linked.rotate
    refine
      ⟨after, top, parent, sibling, first, second, ?_, linked, inSibling,
        inFirst, inSecond, ?_⟩
    · rw [turnOutside, if_pos child, rotated, Option.map_some]
    · simp only [Shape.toList_join, Side.append_rotate]

/-- The parent of a red pair comes to the place of the grandparent. -/
theorem raiseParent_linked
    {tree third uncle : Shape Node Color}
    {upper gparent : Node}
    (linked :
      TreeLinked links
        (up.fill
          (.join side .black (.join side .red tree upper third) gparent
            uncle))) :
    ∃ after,
      (setBlackred links upper gparent).rotate side.other gparent =
          some after ∧
        TreeLinked after
          (up.fill
            (.join side .black tree upper
              (.join side .red third gparent uncle))) := by
  have atUpper :
      TreeLinked links
        ((Path.frame side .black gparent uncle up).fill
          (.join side .red tree upper third)) :=
    linked
  have first :
      TreeLinked (links.setTag upper .black)
        (up.fill
          (.join side .black (.join side .black tree upper third) gparent
            uncle)) :=
    atUpper.setTag .black
  have second :
      TreeLinked (setBlackred links upper gparent)
        (up.fill
          (.join side.other .red uncle gparent
            (.join side.other .black third upper tree))) := by
    simp only [Shape.join_other]
    exact first.setTag .red
  obtain ⟨after, rotated, linked⟩ := second.rotate
  simp only [Shape.join_other] at linked
  exact ⟨after, rotated, linked⟩

/-- The loop of `RB_INSERT_COLOR`: a red node that may have a red parent. -/
structure RedNode
    (links : RbLinks Node)
    (elm : Node)
    (up : Path Node Color)
    (tree : Shape Node Color)
    (height : Nat) : Prop where
  linked : TreeLinked links (up.fill tree)
  red : RedBlack .red height tree
  isTop : tree.root = some elm
  fits : Fits up .black height

/-- A round with a red parent takes the red pair up. -/
theorem RedNode.round
    {innerSide : Side}
    {tree sibling : Shape Node Color}
    (redNode :
      RedNode links elm (.frame innerSide .red parent sibling up) tree height) :
    ∃ next node path lifted total,
      (∀ rounds,
        rbInsertColor (rounds + 1) links elm =
          rbInsertColor rounds next node) ∧
      RedNode next node path lifted total ∧ path.length ≤ up.length ∧
      (path.fill lifted).toList =
        (up.fill (.join innerSide .red tree parent sibling)).toList := by
  obtain ⟨atParent, inTree, isTop, fits⟩ := redNode
  cases fits with
  | red inSibling above =>
      cases above with
      | @black side gparent uncle up uncleColor _ _ inUncle above =>
          have atGparent :
              TreeLinked links
                (up.fill
                  (.join side .black (.join innerSide .red tree parent sibling)
                    gparent uncle)) :=
            atParent
          have inside :
              TreeLinked links
                ((Path.frame side .black gparent uncle up).fill
                  (.join innerSide .red tree parent sibling)) :=
            atParent
          have isSide : sideOf links gparent (some parent) = side := by
            have notUncle :=
              root_ne_of_nodup atGparent.nodup (Shape.root_join ..)
            have found := sideOf_eq atGparent
            rw [Shape.root_join] at found
            exact found notUncle
          have atUncle :
              TreeLinked links
                ((Path.frame side.other .black gparent
                    (.join innerSide .red tree parent sibling) up).fill
                  uncle) := by
            rw [Path.fill_far]
            exact atGparent
          have parentOf : (links.entry elm).parent = some parent := by
            obtain ⟨elmTag, near, far, rfl⟩ :=
              Shape.eq_join_of_root .left isTop
            exact atParent.parent_eq
          have uncleOf := redUncle_eq atUncle inUncle
          cases uncleColor with
          | red =>
              obtain ⟨left, uncle, right, rfl, inLeft, inRight⟩ :=
                inUncle.of_red .left
              refine
                ⟨_, gparent, up, _, _, fun rounds => ?_,
                  { linked := recolorUncle_linked atGparent
                    red :=
                      .red_join (.black_join inTree inSibling)
                        (.black_join inLeft inRight)
                    isTop := Shape.root_join ..
                    fits := above },
                  Nat.le_succ _, ?_⟩
              · rw [if_pos rfl, Shape.root_join] at uncleOf
                simp only [rbInsertColor, parentOf, inside.tag_eq,
                  inside.parent_eq, Path.parent, isSide, atGparent.child_far,
                  Shape.root_join, uncleOf, if_true]
              · rw [Path.fill]
                simp only [Path.toList_fill, Shape.toList_join]
          | black =>
              obtain ⟨turned, upper, lower, first, second, third, isTurned,
                outside, inFirst, inSecond, inThird, sameInside⟩ :=
                turnOutside_linked inside inTree isTop inSibling side
              obtain ⟨raised, isRaised, linked⟩ := raiseParent_linked outside
              refine
                ⟨raised, lower,
                  .frame side .black upper (.join side .red third gparent uncle)
                    up,
                  .join side .red first lower second, _, fun rounds => ?_,
                  { linked := linked
                    red := .red_join inFirst inSecond
                    isTop := Shape.root_join ..
                    fits := .black (.red_join inThird inUncle) above },
                  le_rfl, ?_⟩
              · rw [if_neg (by decide)] at uncleOf
                simp only [rbInsertColor, parentOf, inside.tag_eq,
                  inside.parent_eq, Path.parent, isSide, atGparent.child_far,
                  uncleOf, isTurned, isRaised, if_true]
              · rw [Path.fill, Path.fill]
                simp only [Path.toList_fill, Shape.toList_join] at sameInside ⊢
                rw [← sameInside]
                simp only [Side.append_rotate]

/-- `RB_INSERT_COLOR` makes a red-black tree of the nodes, in their order. -/
theorem RedNode.isRb
    {rounds : Nat}
    {tree : Shape Node Color}
    (redNode : RedNode links elm up tree height)
    (enough : up.length < rounds) :
    ∃ after,
      rbInsertColor rounds links elm = some after ∧
        IsRb after (up.fill tree).toList := by
  induction rounds generalizing links up tree elm height with
  | zero => exact absurd enough (Nat.not_lt_zero _)
  | succ rounds inductionHypothesis =>
      obtain ⟨linked, inTree, isTop, fits⟩ := id redNode
      obtain ⟨near, top, far, rfl, inNear, inFar⟩ := inTree.of_red .left
      rw [Shape.root_join] at isTop
      obtain rfl := Option.some.inj isTop
      cases fits with
      | top =>
          rw [rbInsertColor, linked.parent_eq]
          exact blackenRoot_isRb linked inNear inFar
      | @black side parent sibling up _ _ _ inSibling above =>
          have atParent :
              TreeLinked links
                (up.fill
                  (.join side .black (.join .left .red near top far) parent
                    sibling)) :=
            linked
          rw [rbInsertColor, linked.parent_eq]
          simp only [Path.parent, atParent.tag_eq, reduceCtorEq, if_false]
          exact
            blackenRoot_of_fits linked inTree (.black inSibling above)
              (Shape.root_join ..)
      | red inSibling above =>
          obtain ⟨next, node, path, lifted, total, round, redNode, shorter,
            same⟩ := redNode.round
          simp only [Path.length] at enough
          rw [round, Path.fill, ← same]
          exact inductionHypothesis redNode (by omega)

end RiscvWorkshop.RbTree
