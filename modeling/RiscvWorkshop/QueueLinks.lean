import Mathlib
import RiscvWorkshop.CircularList

namespace RiscvWorkshop

/-!
# The operations on queues

A queue is a head that is linked in a circle with its nodes.  The operations
write links, four at a time; on the lists of the nodes they insert, remove and
rotate.
-/

section Operations

variable {Address : Type*}
variable [DecidableEq Address]

/-- `node->next = value`. -/
def Links.setNext
    (links : Links Address)
    (node value : Address) : Links Address :=
  { links with next := Function.update links.next node value }

/-- `node->prev = value`. -/
def Links.setPrev
    (links : Links Address)
    (node value : Address) : Links Address :=
  { links with prev := Function.update links.prev node value }

/-- `list_init`. -/
def Links.listInit
    (links : Links Address)
    (node : Address) : Links Address :=
  (links.setNext node node).setPrev node node

/-- `list_del`. -/
def Links.listDel
    (links : Links Address)
    (node : Address) : Links Address :=
  let links := links.setPrev (links.next node) (links.prev node)
  let links := links.setNext (links.prev node) (links.next node)
  links.listInit node

/-- `list_not_linked`. -/
def Links.listNotLinked
    (links : Links Address)
    (node : Address) : Bool :=
  links.prev node = node ∧ links.next node = node

/-- `queue_is_empty`. -/
def Links.queueIsEmpty
    (links : Links Address)
    (head : Address) : Bool :=
  links.prev head = head ∧ links.next head = head

/-- `queue_add`. -/
def Links.queueAdd
    (links : Links Address)
    (head node : Address) : Links Address :=
  let links := links.setNext node head
  let links := links.setPrev node (links.prev head)
  let links := links.setNext (links.prev head) node
  links.setPrev head node

/-- `queue_add_top`. -/
def Links.queueAddTop
    (links : Links Address)
    (head node : Address) : Links Address :=
  let links := links.setNext node (links.next head)
  let links := links.setPrev node head
  let links := links.setPrev (links.next head) node
  links.setNext head node

/-- `queue_add_before`. -/
def Links.queueAddBefore
    (links : Links Address)
    (target node : Address) : Links Address :=
  let links := links.setPrev node (links.prev target)
  let links := links.setNext node target
  let links := links.setNext (links.prev target) node
  links.setPrev target node

/-- `queue_add_after`. -/
def Links.queueAddAfter
    (links : Links Address)
    (target node : Address) : Links Address :=
  let links := links.setNext node (links.next target)
  let links := links.setPrev node target
  let links := links.setPrev (links.next target) node
  links.setNext target node

/-- `queue_del`, which returns whether the queue is empty. -/
def Links.queueDel
    (links : Links Address)
    (head node : Address) : Links Address × Bool :=
  let links := links.listDel node
  (links, links.queueIsEmpty head)

/-- `queue_ref_top`. -/
def Links.queueRefTop
    (links : Links Address)
    (head : Address) : Address :=
  links.next head

/-- `queue_get_top`. -/
def Links.queueGetTop
    (links : Links Address)
    (head : Address) : Links Address × Address :=
  let top := links.queueRefTop head
  (links.listDel top, top)

/-- `queue_ref_last`. -/
def Links.queueRefLast
    (links : Links Address)
    (head : Address) : Address :=
  links.prev head

/-- `queue_get_last`. -/
def Links.queueGetLast
    (links : Links Address)
    (head : Address) : Links Address × Address :=
  let last := links.queueRefLast head
  (links.listDel last, last)

/-- `queue_rotate`. -/
def Links.queueRotate
    (links : Links Address)
    (head : Address) : Links Address :=
  let (links, top) := links.queueGetTop head
  links.queueAdd head top

/-- `queue_reverse_rotate`. -/
def Links.queueReverseRotate
    (links : Links Address)
    (head : Address) : Links Address :=
  let (links, last) := links.queueGetLast head
  links.queueAddTop head last

end Operations

/-! ## Calls, on links and on lists -/

/-- A call of one of the operations. -/
inductive QueueOp (Address : Type*) where
  | add (head node : Address)
  | addTop (head node : Address)
  | addBefore (target node : Address)
  | addAfter (target node : Address)
  | del (head node : Address)
  | getTop (head : Address)
  | getLast (head : Address)
  | rotate (head : Address)
  | reverseRotate (head : Address)

/-- What a call returns. -/
inductive QueueAnswer (Address : Type*) where
  | nothing
  | node (address : Address)
  | isEmpty (empty : Bool)

section Calls

variable {Address : Type*}
variable [DecidableEq Address]

/-- The call on the links. -/
def QueueOp.run
    (links : Links Address) :
    QueueOp Address → Links Address × QueueAnswer Address
  | .add head node => (links.queueAdd head node, .nothing)
  | .addTop head node => (links.queueAddTop head node, .nothing)
  | .addBefore target node => (links.queueAddBefore target node, .nothing)
  | .addAfter target node => (links.queueAddAfter target node, .nothing)
  | .del head node => (links.queueDel head node).map id .isEmpty
  | .getTop head => (links.queueGetTop head).map id .node
  | .getLast head => (links.queueGetLast head).map id .node
  | .rotate head => (links.queueRotate head, .nothing)
  | .reverseRotate head => (links.queueReverseRotate head, .nothing)

/-- Calls one after the other. -/
def runQueueOps :
    List (QueueOp Address) → Links Address →
      Links Address × List (QueueAnswer Address)
  | [], links => (links, [])
  | op :: later, links =>
      let (links, answer) := op.run links
      let (links, answers) := runQueueOps later links
      (links, answer :: answers)

/-- A list with `node` in front of `target`. -/
def insertBefore (target node : Address) : List Address → List Address
  | [] => []
  | first :: rest =>
      if first = target then
        node :: first :: rest
      else
        first :: insertBefore target node rest

/-- A list with `node` behind `target`. -/
def insertAfter (target node : Address) : List Address → List Address
  | [] => []
  | first :: rest =>
      if first = target then
        first :: node :: rest
      else
        first :: insertAfter target node rest

/--
The call on the lists of the nodes.  Nodes are put before or behind others in
whatever list has those; the head is at the end of its circle and in front.
-/
def QueueOp.onLists
    (lists : Address → List Address) :
    QueueOp Address → (Address → List Address) × QueueAnswer Address
  | .add head node =>
      (Function.update lists head (lists head ++ [node]), .nothing)
  | .addTop head node =>
      (Function.update lists head (node :: lists head), .nothing)
  | .addBefore target node =>
      (fun head => (insertBefore target node (lists head ++ [head])).dropLast,
        .nothing)
  | .addAfter target node =>
      (fun head => (insertAfter target node (head :: lists head)).tail,
        .nothing)
  | .del head node =>
      (fun queue => (lists queue).erase node,
        .isEmpty ((lists head).erase node).isEmpty)
  | .getTop head =>
      (Function.update lists head (lists head).tail,
        .node ((lists head).headD head))
  | .getLast head =>
      (Function.update lists head (lists head).dropLast,
        .node ((lists head).getLastD head))
  | .rotate head =>
      (Function.update lists head
        ((lists head).tail ++ (lists head).head?.toList), .nothing)
  | .reverseRotate head =>
      (Function.update lists head
        ((lists head).getLast?.toList ++ (lists head).dropLast), .nothing)

/-- Calls on the lists one after the other. -/
def queueOpsOnLists :
    List (QueueOp Address) → (Address → List Address) →
      (Address → List Address) × List (QueueAnswer Address)
  | [], lists => (lists, [])
  | op :: later, lists =>
      let (lists, answer) := op.onLists lists
      let (lists, answers) := queueOpsOnLists later lists
      (lists, answer :: answers)

end Calls

section Invariant

variable {Address : Type*}

/-- A node that is on no queue. -/
@[mk_iff]
structure OnNoQueue
    (heads : Set Address)
    (lists : Address → List Address)
    (node : Address) : Prop where
  notHead : node ∉ heads
  notMem : ∀ head ∈ heads, node ∉ lists head

/--
How the callers use the operations: nodes are added when they are on no queue,
next to a head or to a node of a queue, and heads are not deleted.
-/
def QueueOp.Allowed
    (heads : Set Address)
    (lists : Address → List Address) :
    QueueOp Address → Prop
  | .add head node => head ∈ heads ∧ OnNoQueue heads lists node
  | .addTop head node => head ∈ heads ∧ OnNoQueue heads lists node
  | .addBefore target node =>
      (∃ head ∈ heads, target ∈ head :: lists head) ∧
        OnNoQueue heads lists node
  | .addAfter target node =>
      (∃ head ∈ heads, target ∈ head :: lists head) ∧
        OnNoQueue heads lists node
  | .del head node => head ∈ heads ∧ node ∉ heads
  | .getTop head => head ∈ heads
  | .getLast head => head ∈ heads
  | .rotate head => head ∈ heads
  | .reverseRotate head => head ∈ heads

/-- Every call is allowed when its turn comes. -/
def QueueOpsAllowed
    [DecidableEq Address]
    (heads : Set Address) :
    List (QueueOp Address) → (Address → List Address) → Prop
  | [], _ => True
  | op :: later, lists =>
      op.Allowed heads lists ∧
        QueueOpsAllowed heads later (op.onLists lists).1

/--
The links are those of queues with these lists of nodes: well-formed circles
with no node in common, and every other node is linked with itself.
-/
structure QueuesAre
    (links : Links Address)
    (heads : Set Address)
    (lists : Address → List Address) : Prop where
  rings : ∀ head ∈ heads, links.Ring head (lists head)
  nodes : ∀ head ∈ heads, ∀ node ∈ lists head, node ∉ heads
  apart :
    ∀ head ∈ heads, ∀ other ∈ heads,
      head ≠ other → ∀ node ∈ lists head, node ∉ lists other
  alone :
    ∀ node, OnNoQueue heads lists node →
      links.next node = node ∧ links.prev node = node

end Invariant

end RiscvWorkshop
