import Mathlib
import RiscvWorkshop.KernelQueue
import RiscvWorkshop.CircularList
import RiscvWorkshop.Timer

namespace RiscvWorkshop

/-!
# Sorted insertion into a queue

`queue_add_sort` walks the links of a queue and puts the node before the place
where it stops.  On a queue it does what `queueAddSort` does to the list of its
nodes: the result is in order unless the node belongs behind the last one.
-/

/--
The loop of `queue_add_sort`.  `lp` is the place it has come to, and `next` is
the link behind it.
-/
def queueAddSortLoop
    (cmp : Nat → Nat → Int)
    (how : QueueAdd)
    (node que : Nat)
    (links : Links Nat) :
    Nat → Nat → Nat → Option (Links Nat)
  | 0, _, _ => none
  | rounds + 1, lp, next =>
      if next = que ∨ how = .ascending ∧ cmp node lp < 0 ∨
          how = .descending ∧ cmp node lp > 0 then
        some (links.addBefore lp node)
      else if next ≠ que then
        queueAddSortLoop cmp how node que links rounds next (links.next next)
      else
        some links

/-- `queue_add_sort`: the comparison takes the nodes for what they are in. -/
def queueAddSortLinks
    (cmp : Nat → Nat → Int)
    (how : QueueAdd)
    (node que : Nat)
    (links : Links Nat)
    (rounds : Nat) : Option (Links Nat) :=
  queueAddSortLoop cmp how node que links rounds (links.next que)
    (links.next (links.next que))

/-- A comparison by a total preorder. -/
structure TotalPreorderCmp
    {Elem : Type*}
    (cmp : Elem → Elem → Int) : Prop where
  swap : ∀ first second, cmp first second < 0 ↔ cmp second first > 0
  trans : ∀ first second third,
    cmp first second ≤ 0 → cmp second third ≤ 0 → cmp first third ≤ 0

/-- The order that a queue is sorted in. -/
def QueueAdd.InOrder
    {Elem : Type*}
    (how : QueueAdd)
    (cmp : Elem → Elem → Int)
    (first second : Elem) : Prop :=
  match how with
  | .ascending => cmp first second ≤ 0
  | .descending => cmp first second ≥ 0

instance
    {Elem : Type*}
    (how : QueueAdd)
    (cmp : Elem → Elem → Int)
    (first second : Elem) :
    Decidable (how.InOrder cmp first second) :=
  match how with
  | .ascending => inferInstanceAs (Decidable (_ ≤ _))
  | .descending => inferInstanceAs (Decidable (_ ≥ _))

/--
The insertion ends with a queue of the old nodes, in their old order, and the
new one, which is in order.
-/
def AddSortRight
    (cmp : Nat → Nat → Int)
    (how : QueueAdd)
    (node que : Nat)
    (links : Links Nat)
    (nodes : List Nat) : Prop :=
  ∃ rounds after before later,
    queueAddSortLinks cmp how node que links rounds = some after ∧
      after.Ring que (before ++ node :: later) ∧
      nodes = before ++ later ∧
      (before ++ node :: later).Pairwise (how.InOrder cmp)

section Order

variable {Elem : Type*}
variable {cmp : Elem → Elem → Int}
variable {how : QueueAdd}
variable {first second third : Elem}

namespace TotalPreorderCmp

/-- Two elements compare the other way round. -/
theorem flip
    (total : TotalPreorderCmp cmp) :
    cmp first second ≤ 0 ↔ 0 ≤ cmp second first := by
  have one := total.swap second first
  omega

theorem inOrder_trans
    (total : TotalPreorderCmp cmp)
    (earlier : how.InOrder cmp first second)
    (later : how.InOrder cmp second third) :
    how.InOrder cmp first third := by
  cases how with
  | ascending => exact total.trans first second third earlier later
  | descending =>
      exact total.flip.mp
        (total.trans third second first (total.flip.mpr later)
          (total.flip.mpr earlier))

/-- A node that does not precede an element is in order behind it. -/
theorem inOrder_of_passed
    (total : TotalPreorderCmp cmp)
    (passed : ¬ how.Precedes cmp first second) :
    how.InOrder cmp second first := by
  have flipped := total.swap first second
  have back := total.swap second first
  cases how <;>
    simp [QueueAdd.Precedes] at passed <;>
    simp only [QueueAdd.InOrder] <;>
    omega

end TotalPreorderCmp

/-- A node that precedes an element is in order before it. -/
theorem QueueAdd.Precedes.inOrder
    (precedes : how.Precedes cmp first second) :
    how.InOrder cmp first second := by
  cases how <;>
    simp [QueueAdd.Precedes] at precedes <;>
    simp only [QueueAdd.InOrder] <;>
    omega

end Order

/-! ## The loop on the links of a queue -/

section Links

variable {cmp : Nat → Nat → Int}
variable {how : QueueAdd}
variable {node que : Nat}
variable {links : Links Nat}
variable {nodes before later : List Nat}

/--
From a place in the queue on, the loop inserts where the list of the nodes that
are left has it.
-/
theorem queueAddSortLoop_ring
    (ring : links.Ring que (before ++ later))
    (fresh : node ∉ que :: (before ++ later))
    (notEnd : later = [] → before = []) :
    ∃ after,
      queueAddSortLoop cmp how node que links (later.length + 1)
          (firstOr que later) (links.next (firstOr que later)) = some after ∧
        after.Ring que (before ++ queueAddSort cmp how node later) := by
  have inserted := ring.addBefore fresh
  induction later generalizing before with
  | nil =>
      obtain rfl := notEnd rfl
      have alone : links.next que = que :=
        ring.next_head
      exact ⟨_, if_pos (.inl alone), inserted⟩
  | cons elem rest inductionHypothesis =>
      have behind : links.next elem = firstOr que rest :=
        ring.next_node
      cases rest with
      | nil =>
          exact ⟨_, if_pos (.inl behind), inserted⟩
      | cons second more =>
          rw [firstOr] at behind
          have notQue : second ≠ que := by
            rintro rfl
            exact ring.head_notMem (by simp)
          rw [queueAddSort, queueAddSortLoop, firstOr, behind]
          by_cases precedes : how.Precedes cmp node elem
          · rw [QueueAdd.Precedes] at precedes
            rw [if_pos (.inr precedes), if_pos precedes]
            exact ⟨_, rfl, inserted⟩
          · rw [QueueAdd.Precedes] at precedes
            rw [if_neg (not_or.mpr ⟨notQue, precedes⟩), if_pos notQue,
              if_neg precedes]
            have moved : before ++ elem :: second :: more =
                (before ++ [elem]) ++ second :: more := by
              simp
            rw [moved] at ring fresh
            obtain ⟨after, returned, result⟩ :=
              inductionHypothesis ring fresh (fun empty => by cases empty)
                (ring.addBefore fresh)
            refine ⟨after, returned, ?_⟩
            rw [List.append_assoc] at result
            exact result

/-- On a queue the insertion is that of the list of its nodes. -/
theorem queueAddSortLinks_ring
    (cmp : Nat → Nat → Int)
    (how : QueueAdd)
    (ring : links.Ring que nodes)
    (fresh : node ∉ que :: nodes) :
    ∃ after,
      queueAddSortLinks cmp how node que links (nodes.length + 1) =
          some after ∧
        after.Ring que (queueAddSort cmp how node nodes) := by
  have inserted :
      ∃ after,
        queueAddSortLoop cmp how node que links (nodes.length + 1)
            (firstOr que nodes) (links.next (firstOr que nodes)) = some after ∧
          after.Ring que ([] ++ queueAddSort cmp how node nodes) :=
    queueAddSortLoop_ring ring fresh (fun _ => rfl)
  rw [queueAddSortLinks, ring.next_head]
  exact inserted

/-- More rounds do not change what the loop returns. -/
theorem queueAddSortLoop_unique
    {rounds others lp next : Nat}
    {after same : Links Nat}
    (returned :
      queueAddSortLoop cmp how node que links rounds lp next = some after)
    (again :
      queueAddSortLoop cmp how node que links others lp next = some same) :
    after = same := by
  induction rounds generalizing others lp next with
  | zero => cases returned
  | succ rounds inductionHypothesis =>
      cases others with
      | zero => cases again
      | succ others =>
          rw [queueAddSortLoop] at returned again
          split at returned
          case isTrue stops =>
            rw [if_pos stops, returned] at again
            exact Option.some.inj again
          case isFalse goes =>
            rw [if_neg goes] at again
            split at returned
            case isTrue more =>
              rw [if_pos more] at again
              exact inductionHypothesis returned again
            case isFalse ends =>
              rw [if_neg ends, returned] at again
              exact Option.some.inj again

/-- An insertion that is right has the node before the last one in order. -/
theorem AddSortRight.inOrder_last
    (right : AddSortRight cmp how node que links nodes)
    (ring : links.Ring que nodes)
    (fresh : node ∉ que :: nodes) :
    ∀ last ∈ nodes.getLast?, how.InOrder cmp node last := by
  obtain ⟨rounds, after, front, back, returned, otherRing, -, ordered⟩ := right
  obtain ⟨same, again, result⟩ := queueAddSortLinks_ring cmp how ring fresh
  obtain ⟨before, later, -, added, -, -, inLater⟩ :=
    queueAddSort_split cmp how node nodes
  obtain rfl := queueAddSortLoop_unique returned again
  rw [otherRing.unique result, added] at ordered
  obtain ⟨fromNode, -⟩ :=
    List.pairwise_cons.mp (List.pairwise_append.mp ordered).2.1
  exact fun last isLast => fromNode last (inLater last isLast)

/--
On every sorted queue the insertion is right if and only if the queue is empty
or the node does not belong behind its last one.
-/
theorem addSortRight_iff
    (total : TotalPreorderCmp cmp)
    (ring : links.Ring que nodes)
    (sorted : nodes.Pairwise (how.InOrder cmp))
    (fresh : node ∉ que :: nodes) :
    AddSortRight cmp how node que links nodes ↔
      ∀ last ∈ nodes.getLast?, how.InOrder cmp node last := by
  constructor
  · exact fun right => right.inOrder_last ring fresh
  · intro notBehind
    obtain ⟨after, returned, result⟩ :=
      queueAddSortLinks_ring cmp how ring fresh
    obtain ⟨before, later, split, added, -⟩ :=
      queueAddSort_split cmp how node nodes
    refine ⟨_, after, before, later, returned, added ▸ result, split, ?_⟩
    rw [← added]
    exact queueAddSort_pairwise total.inOrder_trans
      (fun _ _ passed => total.inOrder_of_passed passed)
      (fun _ _ precedes => precedes.inOrder) sorted notBehind

end Links

/-! ## The queue of callouts -/

namespace Timer

/-- `calloutent_cmp` is a total preorder, wherever the entries are. -/
theorem calloutentCmp_total
    (entAt : Nat → CallOutEnt) :
    TotalPreorderCmp fun key ent =>
      calloutentCmp (entAt key) (entAt ent) := by
  constructor
  · intro first second
    simp only [calloutentCmp]
    split_ifs <;> omega
  · intro first second third earlier later
    simp only [calloutentCmp] at *
    split_ifs at * <;> omega

/-- An entry that is due at a number of seconds, its address divided by ten. -/
def entOfTens (addr : Nat) : CallOutEnt where
  addr
  expire := ⟨addr / 10, 0⟩
  callout := 0
  privateInfo := 0
  request := 0
  due := 0

/-- The comparison of such entries. -/
def tensCmp (key ent : Nat) : Int :=
  calloutentCmp (entOfTens key) (entOfTens ent)

/-- A queue at address 1 with one entry, and one with two more behind it. -/
def oneEntry : Links Nat :=
  Links.addBefore ⟨id, id⟩ 1 20

def threeEntries : Links Nat :=
  (oneEntry.addBefore 1 30).addBefore 1 40

theorem oneEntry_ring : oneEntry.Ring 1 [20] := by
  have noEntry : Links.Ring ⟨id, id⟩ 1 [] :=
    ⟨⟨rfl, rfl⟩, List.nodup_singleton 1⟩
  exact noEntry.addLast (by decide)

theorem threeEntries_ring : threeEntries.Ring 1 [20, 30, 40] :=
  (oneEntry_ring.addLast (by decide)).addLast (by decide)

/-- An entry with the time of the second one goes behind that. -/
theorem addSortRight_threeEntries :
    AddSortRight tensCmp .ascending 35 1 threeEntries [20, 30, 40] ∧
      (queueAddSortLinks tensCmp .ascending 35 1 threeEntries 4).map
        (fun links => (links.next 30, links.next 35, links.prev 40)) =
          some (35, 40, 35) :=
  ⟨(addSortRight_iff (calloutentCmp_total entOfTens) threeEntries_ring
    (by decide) (by decide)).mpr (by decide), by decide⟩

/-- An entry that belongs behind the only one is put before it. -/
theorem addSort_before_last :
    TotalPreorderCmp tensCmp ∧ oneEntry.Ring 1 [20] ∧
      (queueAddSortLinks tensCmp .ascending 30 1 oneEntry 2).map
        (fun links => (links.next 1, links.next 30, links.next 20)) =
          some (30, 20, 1) ∧
      ¬ AddSortRight tensCmp .ascending 30 1 oneEntry [20] := by
  refine ⟨calloutentCmp_total entOfTens, oneEntry_ring, by decide, ?_⟩
  intro right
  exact absurd (right.inOrder_last oneEntry_ring (by decide)) (by decide)

end Timer

end RiscvWorkshop
