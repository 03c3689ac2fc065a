import Mathlib
import RiscvWorkshop.RbTree

namespace RiscvWorkshop.RbTree

open LinkedTree

/-!
# Balanced trees

A tree of some color and black height, and a hole where such a tree fits.  What
fits into a hole can be rebuilt there without a look at the rest of the tree.
-/

variable {Node : Type*}

/-- A red-black tree with the color of its root and its black height. -/
inductive RedBlack : Color → Nat → Shape Node Color → Prop where
  | leaf :
      RedBlack .black 0 .leaf
  | red
      {height : Nat}
      {left right : Shape Node Color}
      {top : Node}
      (inLeft : RedBlack .black height left)
      (inRight : RedBlack .black height right) :
      RedBlack .red height (.node .red left top right)
  | black
      {leftColor rightColor : Color}
      {height : Nat}
      {left right : Shape Node Color}
      {top : Node}
      (inLeft : RedBlack leftColor height left)
      (inRight : RedBlack rightColor height right) :
      RedBlack .black (height + 1) (.node .black left top right)

/-- A hole that a red-black tree of some color and black height fits into. -/
inductive Fits : Path Node Color → Color → Nat → Prop where
  | top
      {height : Nat} :
      Fits .top .black height
  | red
      {side : Side}
      {parent : Node}
      {sibling : Shape Node Color}
      {up : Path Node Color}
      {height : Nat}
      (inSibling : RedBlack .black height sibling)
      (above : Fits up .red height) :
      Fits (.frame side .red parent sibling up) .black height
  | black
      {side : Side}
      {parent : Node}
      {sibling : Shape Node Color}
      {up : Path Node Color}
      {siblingColor color : Color}
      {height : Nat}
      (inSibling : RedBlack siblingColor height sibling)
      (above : Fits up .black (height + 1)) :
      Fits (.frame side .black parent sibling up) color height

namespace RedBlack

variable {side : Side}
variable {height : Nat}
variable {color nearColor farColor : Color}
variable {near far tree : Shape Node Color}
variable {top : Node}

theorem red_join
    (inNear : RedBlack .black height near)
    (inFar : RedBlack .black height far) :
    RedBlack .red height (.join side .red near top far) := by
  cases side with
  | left => exact .red inNear inFar
  | right => exact .red inFar inNear

theorem black_join
    (inNear : RedBlack nearColor height near)
    (inFar : RedBlack farColor height far) :
    RedBlack .black (height + 1) (.join side .black near top far) := by
  cases side with
  | left => exact .black inNear inFar
  | right => exact .black inFar inNear

/-- A red tree has black children. -/
theorem of_red
    (tree_red : RedBlack .red height tree)
    (side : Side) :
    ∃ near top far,
      tree = .join side .red near top far ∧
        RedBlack .black height near ∧ RedBlack .black height far := by
  cases tree_red with
  | red inLeft inRight =>
      cases side with
      | left => exact ⟨_, _, _, rfl, inLeft, inRight⟩
      | right => exact ⟨_, _, _, rfl, inRight, inLeft⟩

/-- A black tree that is not empty has children of a smaller black height. -/
theorem of_black
    (tree_black : RedBlack .black (height + 1) tree)
    (side : Side) :
    ∃ nearColor farColor near top far,
      tree = .join side .black near top far ∧
        RedBlack nearColor height near ∧ RedBlack farColor height far := by
  cases tree_black with
  | black inLeft inRight =>
      cases side with
      | left => exact ⟨_, _, _, _, _, rfl, inLeft, inRight⟩
      | right => exact ⟨_, _, _, _, _, rfl, inRight, inLeft⟩

theorem red_join_iff :
    RedBlack color height (.join side .red near top far) ↔
      color = .red ∧ RedBlack .black height near ∧ RedBlack .black height far := by
  constructor
  · intro tree
    cases side with
    | left =>
        cases tree with
        | red inLeft inRight => exact ⟨rfl, inLeft, inRight⟩
    | right =>
        cases tree with
        | red inLeft inRight => exact ⟨rfl, inRight, inLeft⟩
  · rintro ⟨rfl, inNear, inFar⟩
    exact red_join inNear inFar

theorem black_join_iff :
    RedBlack color height (.join side .black near top far) ↔
      ∃ nearColor farColor smaller,
        color = .black ∧ height = smaller + 1 ∧
          RedBlack nearColor smaller near ∧ RedBlack farColor smaller far := by
  constructor
  · intro tree
    cases side with
    | left =>
        cases tree with
        | black inLeft inRight => exact ⟨_, _, _, rfl, rfl, inLeft, inRight⟩
    | right =>
        cases tree with
        | black inLeft inRight => exact ⟨_, _, _, rfl, rfl, inRight, inLeft⟩
  · rintro ⟨_, _, _, rfl, rfl, inNear, inFar⟩
    exact black_join inNear inFar

end RedBlack

namespace Fits

variable {up : Path Node Color}
variable {color : Color}
variable {height : Nat}
variable {tree : Shape Node Color}

/-- A hole for a red tree is one for a black tree too. -/
theorem to_black (fits : Fits up color height) : Fits up .black height := by
  cases fits with
  | top => exact .top
  | red inSibling above => exact .red inSibling above
  | black inSibling above => exact .black inSibling above

/-- A tree that fits into a hole makes a red-black tree with a black root. -/
theorem fill
    (fits : Fits up color height)
    (inTree : RedBlack color height tree) :
    ∃ total, RedBlack .black total (up.fill tree) := by
  induction fits generalizing tree with
  | top => exact ⟨_, inTree⟩
  | red inSibling above inductionHypothesis =>
      exact inductionHypothesis (.red_join inTree inSibling)
  | black inSibling above inductionHypothesis =>
      exact inductionHypothesis (.black_join inTree inSibling)

/-- Every part of a red-black tree fits where it is. -/
theorem of_fill
    {total : Nat}
    (whole : RedBlack .black total (up.fill tree)) :
    ∃ color height, Fits up color height ∧ RedBlack color height tree := by
  induction up generalizing tree with
  | top => exact ⟨.black, total, .top, whole⟩
  | frame side tag parent sibling up inductionHypothesis =>
      obtain ⟨color, height, above, inTop⟩ := inductionHypothesis whole
      cases tag with
      | red =>
          obtain ⟨rfl, inTree, inSibling⟩ := RedBlack.red_join_iff.mp inTop
          exact ⟨.black, height, .red inSibling above, inTree⟩
      | black =>
          obtain ⟨_, _, smaller, rfl, rfl, inTree, inSibling⟩ :=
            RedBlack.black_join_iff.mp inTop
          exact ⟨_, smaller, .black inSibling above, inTree⟩

end Fits

/-! ## Height -/

/-- The number of nodes on the longest way down. -/
def depth : Shape Node Color → Nat
  | .leaf => 0
  | .node _ left _ right => max (depth left) (depth right) + 1

/-- The ways down go through the holes. -/
theorem length_add_depth_le
    (up : Path Node Color)
    (tree : Shape Node Color) :
    up.length + depth tree ≤ depth (up.fill tree) := by
  induction up generalizing tree with
  | top => exact (Nat.zero_add _).le
  | frame side tag parent sibling up inductionHypothesis =>
      have above := inductionHypothesis (.join side tag tree parent sibling)
      have deeper : depth tree + 1 ≤ depth (.join side tag tree parent sibling) := by
        cases side with
        | left => exact Nat.succ_le_succ (le_max_left ..)
        | right => exact Nat.succ_le_succ (le_max_right ..)
      rw [Path.length, Path.fill]
      omega

/-- A red node more is all that a tree may be deeper than twice its black height. -/
def Color.slack : Color → Nat
  | .black => 0
  | .red => 1

/-- The longest way down is at most twice the black height. -/
theorem RedBlack.depth_le
    {color : Color}
    {height : Nat}
    {tree : Shape Node Color}
    (inTree : RedBlack color height tree) :
    depth tree ≤ 2 * height + color.slack := by
  induction inTree with
  | leaf => exact le_rfl
  | red inLeft inRight leftHypothesis rightHypothesis =>
      simp only [depth, Color.slack] at leftHypothesis rightHypothesis ⊢
      omega
  | @black leftColor rightColor height left right top inLeft inRight
      leftHypothesis rightHypothesis =>
      have leftSlack : leftColor.slack ≤ 1 := by cases leftColor <;> decide
      have rightSlack : rightColor.slack ≤ 1 := by cases rightColor <;> decide
      simp only [depth, Color.slack]
      omega

/-- A tree of some black height has at least the nodes of the full one. -/
theorem RedBlack.pow_le
    {color : Color}
    {height : Nat}
    {tree : Shape Node Color}
    (inTree : RedBlack color height tree) :
    2 ^ height ≤ tree.toList.length + 1 := by
  induction inTree with
  | leaf => exact le_rfl
  | red inLeft inRight leftHypothesis rightHypothesis =>
      simp only [Shape.toList, List.length_append, List.length_cons]
      omega
  | black inLeft inRight leftHypothesis rightHypothesis =>
      simp only [Shape.toList, List.length_append, List.length_cons, pow_succ]
      omega

/-- A red-black tree is at most twice as deep as a full one with its nodes. -/
theorem RedBlack.depth_le_log
    {height : Nat}
    {tree : Shape Node Color}
    (inTree : RedBlack .black height tree) :
    depth tree ≤ 2 * Nat.log 2 (tree.toList.length + 1) := by
  have deep := inTree.depth_le
  have small : height ≤ Nat.log 2 (tree.toList.length + 1) :=
    Nat.le_log_of_pow_le Nat.one_lt_two inTree.pow_le
  simp only [Color.slack] at deep
  omega

end RiscvWorkshop.RbTree
