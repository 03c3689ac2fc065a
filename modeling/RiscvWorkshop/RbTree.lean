import Mathlib
import RiscvWorkshop.LinkedTree

namespace RiscvWorkshop.RbTree

open LinkedTree

/-!
# The red-black trees of the kernel

The code keeps its red-black trees by pointers between the nodes.  A function
ends without a result where it would follow a null pointer, or when the rounds
that it is given are used up.  The branches for left and right are the same but
for the side.
-/

/-- `RB_BLACK` and `RB_RED`. -/
inductive Color where
  | black
  | red
deriving Repr, DecidableEq

section Trees

variable {Node : Type*} [DecidableEq Node]

/-- The pointers of a red-black tree. -/
abbrev RbLinks (Node : Type*) := TreeLinks Node Color

omit [DecidableEq Node] in
/-- `RB_INIT`, with `RB_ENT_INIT` of every node. -/
def rbInit : RbLinks Node where
  root := none
  entry := fun _ => { child := fun _ => none, parent := none, tag := .black }

variable (links : RbLinks Node)

/-- A null pointer, or one to a node that is `RB_BLACK`. -/
def blackOrNull : Option Node → Bool
  | none => true
  | some x => (links.entry x).tag = .black

/-- `RB_SET_BLACKRED`. -/
def setBlackred (black red : Node) : RbLinks Node :=
  (links.setTag black .black).setTag red .red

/-- The side of a child, as the code tells it: the right one if it is not left. -/
def sideOf
    (parent : Node)
    (child : Option Node) : Side :=
  if (links.entry parent).child .left = child then .left else .right

/-- The node at the root becomes black. -/
def blackenRoot : Option (RbLinks Node) :=
  links.root.map fun top => links.setTag top .black

/-- The uncle of a red node, if it is red too. -/
def redUncle (tmp : Option Node) : Option Node :=
  tmp.filter fun uncle => (links.entry uncle).tag = .red

/--
The inner node of a red pair is turned outside.  The parent and the node change
their roles then.
-/
def turnOutside
    (side : Side)
    (parent elm : Node) : Option (RbLinks Node × Node × Node) :=
  if (links.entry parent).child side.other = some elm then
    (links.rotate side parent).map fun links => (links, elm, parent)
  else
    some (links, parent, elm)

/-- `RB_INSERT_COLOR`. -/
def rbInsertColor : Nat → RbLinks Node → Node → Option (RbLinks Node)
  | 0, _, _ => none
  | rounds + 1, links, elm =>
      match (links.entry elm).parent with
      | none => blackenRoot links
      | some parent =>
          if (links.entry parent).tag = .red then
            match (links.entry parent).parent with
            | none => none
            | some gparent =>
                let side := sideOf links gparent (some parent)
                match redUncle links ((links.entry gparent).child side.other) with
                | some tmp =>
                    rbInsertColor rounds
                      (setBlackred (links.setTag tmp .black) parent gparent)
                      gparent
                | none =>
                    match turnOutside links side parent elm with
                    | none => none
                    | some (links, parent, elm) =>
                        match
                          (setBlackred links parent gparent).rotate side.other
                            gparent with
                        | none => none
                        | some links => rbInsertColor rounds links elm
          else
            blackenRoot links

/-- The sibling of a node that lacks a black one, made black if it was red. -/
def blackSibling
    (side : Side)
    (parent : Node) : Option (RbLinks Node × Node) :=
  match (links.entry parent).child side.other with
  | none => none
  | some tmp =>
      if (links.entry tmp).tag = .red then
        match (setBlackred links tmp parent).rotate side parent with
        | none => none
        | some links =>
            ((links.entry parent).child side.other).map fun tmp => (links, tmp)
      else
        some (links, tmp)

/-- The outer child of the sibling is made red if it is not. -/
def redOutside
    (side : Side)
    (parent tmp : Node) : Option (RbLinks Node × Node) :=
  if blackOrNull links ((links.entry tmp).child side.other) then
    let links :=
      match (links.entry tmp).child side with
      | none => links
      | some inner => links.setTag inner .black
    match (links.setTag tmp .red).rotate side.other tmp with
    | none => none
    | some links =>
        ((links.entry parent).child side.other).map fun tmp => (links, tmp)
  else
    some (links, tmp)

/-- The sibling takes the color of the parent, and comes to its place. -/
def liftSibling
    (side : Side)
    (parent tmp : Node) : Option (RbLinks Node) :=
  let links := links.setTag tmp (links.entry parent).tag
  let links := links.setTag parent .black
  let links :=
    match (links.entry tmp).child side.other with
    | none => links
    | some outer => links.setTag outer .black
  links.rotate side parent

/-- The node is made black in the end, if there is one. -/
def blackenNode : Option Node → RbLinks Node
  | none => links
  | some elm => links.setTag elm .black

/-- `RB_REMOVE_COLOR`. -/
def rbRemoveColor :
    Nat → RbLinks Node → Option Node → Option Node → Option (RbLinks Node)
  | 0, _, _, _ => none
  | rounds + 1, links, parent, elm =>
      if blackOrNull links elm ∧ elm ≠ links.root then
        match parent with
        | none => none
        | some parent =>
            let side := sideOf links parent elm
            match blackSibling links side parent with
            | none => none
            | some (links, tmp) =>
                if blackOrNull links ((links.entry tmp).child .left) ∧
                    blackOrNull links ((links.entry tmp).child .right) then
                  let links := links.setTag tmp .red
                  rbRemoveColor rounds links (links.entry parent).parent
                    (some parent)
                else
                  match redOutside links side parent tmp with
                  | none => none
                  | some (links, tmp) =>
                      (liftSibling links side parent tmp).map fun links =>
                        blackenNode links links.root
      else
        some (blackenNode links elm)

/-- A node goes that has this child at most. -/
def unlink
    (elm : Node)
    (child : Option Node) : RbLinks Node :=
  let parent := (links.entry elm).parent
  (links.setParentOf child parent).replaceChild parent elm child

/-- The leftmost node from one on. -/
def leftmost : Nat → Node → Option Node
  | 0, _ => none
  | rounds + 1, elm =>
      match (links.entry elm).child .left with
      | none => some elm
      | some left => leftmost rounds left

/-- A node takes the place of another one, with its links. -/
def takePlace (old elm : Node) : RbLinks Node :=
  let links := links.set elm (links.entry old)
  let links := links.replaceChild (links.entry old).parent old (some elm)
  let links := links.setParentOf ((links.entry old).child .left) (some elm)
  links.setParentOf ((links.entry old).child .right) (some elm)

/-- The colors are put right when a black node went. -/
def recolor
    (rounds : Nat)
    (color : Color)
    (parent child : Option Node) : Option (RbLinks Node) :=
  if color = .black then
    rbRemoveColor rounds links parent child
  else
    some links

/-- `RB_REMOVE`. -/
def rbRemove
    (rounds : Nat)
    (elm : Node) : Option (RbLinks Node) :=
  let entry := links.entry elm
  match entry.child .left, entry.child .right with
  | none, child =>
      recolor (unlink links elm child) rounds entry.tag entry.parent child
  | some left, none =>
      recolor (unlink links elm (some left)) rounds entry.tag entry.parent
        (some left)
  | some _, some right =>
      match leftmost links rounds right with
      | none => none
      | some next =>
          let child := (links.entry next).child .right
          let color := (links.entry next).tag
          let parent := (links.entry next).parent
          let links := unlink links next child
          let parent :=
            if (links.entry next).parent = some elm then some next else parent
          recolor (takePlace links elm next) rounds color parent child

/-- Where a search for a node ends. -/
inductive SearchEnd (Node : Type*) where
  /-- at a node with an equal key -/
  | equal (tmp : Node)
  /-- below a parent, with what the last comparison told -/
  | below (parent : Option Node) (comp : Int)
deriving Repr, DecidableEq

/-- The search of `RB_INSERT`. -/
def searchDown
    (cmp : Node → Node → Int)
    (elm : Node) :
    Nat → Option Node → Option Node → Int → Option (SearchEnd Node)
  | _, none, parent, comp => some (.below parent comp)
  | 0, some _, _, _ => none
  | rounds + 1, some tmp, _, _ =>
      let comp := cmp elm tmp
      if comp < 0 then
        searchDown cmp elm rounds ((links.entry tmp).child .left) (some tmp) comp
      else if 0 < comp then
        searchDown cmp elm rounds ((links.entry tmp).child .right) (some tmp) comp
      else
        some (.equal tmp)

/-- `RB_INSERT`, with the node that it returns. -/
def rbInsert
    (cmp : Node → Node → Int)
    (rounds : Nat)
    (elm : Node) : Option (Option Node × RbLinks Node) :=
  match searchDown links cmp elm rounds links.root none 0 with
  | none => none
  | some (.equal tmp) => some (some tmp, links)
  | some (.below parent comp) =>
      let links := links.set elm { child := fun _ => none, parent, tag := .red }
      let side := if comp < 0 then Side.left else Side.right
      (rbInsertColor rounds (links.attach parent side elm) elm).map fun links =>
        (none, links)

/-- The search of `RB_FIND` from a pointer on. -/
def rbFindFrom
    (cmp : Node → Int) :
    Nat → Option Node → Option (Option Node)
  | _, none => some none
  | 0, some _ => none
  | rounds + 1, some tmp =>
      let comp := cmp tmp
      if comp < 0 then
        rbFindFrom cmp rounds ((links.entry tmp).child .left)
      else if 0 < comp then
        rbFindFrom cmp rounds ((links.entry tmp).child .right)
      else
        some (some tmp)

/-- `RB_FIND`. -/
def rbFind
    (cmp : Node → Int)
    (rounds : Nat) : Option (Option Node) :=
  rbFindFrom links cmp rounds links.root

/-- The last node on a side from a pointer on. -/
def outermost (side : Side) : Nat → Option Node → Option Node → Option (Option Node)
  | _, none, parent => some parent
  | 0, some _, _ => none
  | rounds + 1, some tmp, _ =>
      outermost side rounds ((links.entry tmp).child side) (some tmp)

/-- `RB_MINMAX`: the first node, or the last one. -/
def rbMinmax
    (side : Side)
    (rounds : Nat) : Option (Option Node) :=
  outermost links side rounds links.root none

/-- Up as long as the node is the child on a side. -/
def climb (side : Side) : Nat → Node → Option (Option Node)
  | 0, _ => none
  | rounds + 1, elm =>
      match (links.entry elm).parent with
      | none => some none
      | some parent =>
          if (links.entry parent).child side = some elm then
            climb side rounds parent
          else
            some (some parent)

/-- `RB_NEXT` for the right side, and `RB_PREV` for the left one. -/
def rbNeighbor
    (side : Side)
    (rounds : Nat)
    (elm : Node) : Option (Option Node) :=
  match (links.entry elm).child side, (links.entry elm).parent with
  | some beside, _ => outermost links side.other rounds (some beside) none
  | none, none => climb links side rounds elm
  | none, some parent =>
      if (links.entry parent).child side.other = some elm then
        some (some parent)
      else
        climb links side rounds elm

/-- The nodes that a loop visits from a pointer on. -/
def rbForeachFrom
    (side : Side)
    (rounds : Nat) : Nat → Option Node → Option (List Node)
  | _, none => some []
  | 0, some _ => none
  | steps + 1, some x =>
      match rbNeighbor links side rounds x with
      | none => none
      | some next => (rbForeachFrom side rounds steps next).map (x :: ·)

/-- `RB_FOREACH` for the right side, and `RB_FOREACH_REVERSE` for the left one. -/
def rbForeach
    (side : Side)
    (rounds steps : Nat) : Option (List Node) :=
  match rbMinmax links side.other rounds with
  | none => none
  | some first => rbForeachFrom links side rounds steps first

/-- A loop from a pointer on whose body removes some of the nodes. -/
def rbForeachSafeFrom
    (removes : Node → Bool)
    (rounds : Nat) :
    Nat → RbLinks Node → Option Node → Option (List Node × RbLinks Node)
  | _, links, none => some ([], links)
  | 0, _, some _ => none
  | steps + 1, links, some x =>
      match rbNeighbor links .right rounds x with
      | none => none
      | some next =>
          match if removes x then rbRemove links rounds x else some links with
          | none => none
          | some links =>
              (rbForeachSafeFrom removes rounds steps links next).map
                fun (visited, links) => (x :: visited, links)

/-- `RB_FOREACH_SAFE`, with the nodes that the loop visits. -/
def rbForeachSafe
    (removes : Node → Bool)
    (rounds steps : Nat) : Option (List Node × RbLinks Node) :=
  match rbMinmax links .left rounds with
  | none => none
  | some first => rbForeachSafeFrom removes rounds steps links first

end Trees

end RiscvWorkshop.RbTree
