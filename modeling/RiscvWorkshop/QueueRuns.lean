import Mathlib
import RiscvWorkshop.QueueLinks

namespace RiscvWorkshop

/-!
# Runs of the operations on queues

What the operations do to the links is an insertion or a removal in one of the
circles.  The other circles and the nodes on no queue are as before.
-/

section Lists

variable {Address : Type*}
variable [DecidableEq Address]
variable {target node : Address}
variable {head : Address}
variable {front rest list before later : List Address}

/-- The place in front of the target. -/
theorem insertBefore_append
    (first : target ∉ front) :
    insertBefore target node (front ++ target :: rest) =
      front ++ node :: target :: rest := by
  induction front with
  | nil =>
      exact if_pos rfl
  | cons other front inductionHypothesis =>
      obtain ⟨notOther, notFront⟩ := not_or.mp (List.mem_cons.not.mp first)
      rw [List.cons_append, insertBefore, if_neg (Ne.symm notOther),
        inductionHypothesis notFront]
      rfl

/-- Without the target nothing is inserted. -/
theorem insertBefore_of_notMem
    (notMem : target ∉ list) :
    insertBefore target node list = list := by
  induction list with
  | nil =>
      rfl
  | cons other rest inductionHypothesis =>
      obtain ⟨notOther, notRest⟩ := not_or.mp (List.mem_cons.not.mp notMem)
      rw [insertBefore, if_neg (Ne.symm notOther), inductionHypothesis notRest]

/-- In a circle that ends with its head, in front of a node or of the head. -/
theorem insertBefore_circle
    (first : firstOr head later ∉ before) :
    (insertBefore (firstOr head later) node
        (before ++ later ++ [head])).dropLast =
      before ++ node :: later := by
  cases later with
  | nil =>
      have inserted :
          insertBefore head node (before ++ [head]) =
            before ++ node :: [head] :=
        insertBefore_append first
      rw [List.append_nil, firstOr, inserted, List.append_cons,
        List.dropLast_concat]
  | cons target rest =>
      have inserted :
          insertBefore target node (before ++ target :: (rest ++ [head])) =
            before ++ node :: target :: (rest ++ [head]) :=
        insertBefore_append first
      rw [List.append_assoc, List.cons_append, firstOr, inserted,
        ← List.cons_append, ← List.cons_append, ← List.append_assoc,
        List.dropLast_concat]

/-- The place behind the target. -/
theorem insertAfter_append
    (first : target ∉ front) :
    insertAfter target node (front ++ target :: rest) =
      front ++ target :: node :: rest := by
  induction front with
  | nil =>
      exact if_pos rfl
  | cons other front inductionHypothesis =>
      obtain ⟨notOther, notFront⟩ := not_or.mp (List.mem_cons.not.mp first)
      rw [List.cons_append, insertAfter, if_neg (Ne.symm notOther),
        inductionHypothesis notFront]
      rfl

theorem insertAfter_of_notMem
    (notMem : target ∉ list) :
    insertAfter target node list = list := by
  induction list with
  | nil =>
      rfl
  | cons other rest inductionHypothesis =>
      obtain ⟨notOther, notRest⟩ := not_or.mp (List.mem_cons.not.mp notMem)
      rw [insertAfter, if_neg (Ne.symm notOther), inductionHypothesis notRest]

end Lists

/-! ## One circle changes -/

section Updates

variable {Address : Type*}
variable {links after : Links Address}
variable {heads : Set Address}
variable {lists same : Address → List Address}
variable {head target node : Address}
variable {nodes before later : List Address}

namespace QueuesAre

/-- Only the lists of the heads matter. -/
theorem congr
    (are : QueuesAre links heads lists)
    (agree : ∀ head ∈ heads, same head = lists head) :
    QueuesAre links heads same where
  rings := fun head isHead => agree head isHead ▸ are.rings head isHead
  nodes := fun head isHead => agree head isHead ▸ are.nodes head isHead
  apart := by
    intro head isHead other isOther different
    rw [agree head isHead, agree other isOther]
    exact are.apart head isHead other isOther different
  alone := by
    intro node off
    refine are.alone node ⟨off.notHead, fun head isHead => ?_⟩
    rw [← agree head isHead]
    exact off.notMem head isHead

/-- Heads and nodes that are all linked with themselves are empty queues. -/
theorem of_empty
    (next : ∀ node, links.next node = node)
    (prev : ∀ node, links.prev node = node) :
    QueuesAre links heads fun _ => [] where
  rings := fun head _ =>
    { between := ⟨next head, prev head⟩
      nodup := List.nodup_singleton head }
  nodes := fun _ _ _ member => absurd member List.not_mem_nil
  apart := fun _ _ _ _ _ _ member => absurd member List.not_mem_nil
  alone := fun node _ => ⟨next node, prev node⟩

/-- A node is not linked exactly when it is on no queue. -/
theorem listNotLinked_iff
    [DecidableEq Address]
    (are : QueuesAre links heads lists)
    (notHead : node ∉ heads) :
    links.listNotLinked node = true ↔ ∀ head ∈ heads, node ∉ lists head := by
  rw [Links.listNotLinked, decide_eq_true_iff]
  constructor
  · rintro ⟨_, next⟩ head isHead member
    obtain ⟨before, later, split⟩ := List.append_of_mem member
    have ring := are.rings head isHead
    rw [split] at ring
    have isNext := ring.next_node
    rw [next] at isNext
    have nodup := (List.nodup_cons.mp ring.nodup).2
    cases later with
    | nil =>
        exact notHead (isNext ▸ isHead)
    | cons first rest =>
        have behind := (List.nodup_append.mp nodup).2.1
        exact (List.nodup_cons.mp behind).1 (isNext ▸ List.mem_cons_self)
  · intro off
    exact (are.alone node ⟨notHead, off⟩).symm

/-- A queue is empty when its list is. -/
theorem queueIsEmpty_eq
    [DecidableEq Address]
    (are : QueuesAre links heads lists)
    (isHead : head ∈ heads) :
    links.queueIsEmpty head = (lists head).isEmpty := by
  have ring := are.rings head isHead
  rw [Bool.eq_iff_iff, Links.queueIsEmpty, decide_eq_true_iff,
    List.isEmpty_iff]
  have next := ring.next_head
  constructor
  · rintro ⟨_, alone⟩
    rw [alone] at next
    cases nodes : lists head with
    | nil => rfl
    | cons first rest =>
        rw [nodes] at next ring
        exact absurd (next ▸ List.mem_cons_self) ring.head_notMem
  · intro empty
    rw [empty] at ring
    exact ⟨ring.between.2, ring.between.1⟩

/-- What is in one circle is in no other. -/
theorem circles_apart
    {other : Address}
    (are : QueuesAre links heads lists)
    (isHead : head ∈ heads)
    (isOther : other ∈ heads)
    (different : other ≠ head)
    (member : node ∈ other :: lists other) :
    node ∉ head :: lists head := by
  refine List.mem_cons.not.mpr (not_or.mpr ?_)
  rcases List.mem_cons.mp member with rfl | inOther
  · exact ⟨different, fun inHead => are.nodes head isHead _ inHead isOther⟩
  · refine ⟨?_, are.apart other isOther head isHead different node inOther⟩
    rintro rfl
    exact are.nodes other isOther _ inOther isHead

/-- An empty queue is linked with itself. -/
theorem alone_of_empty
    (are : QueuesAre links heads lists)
    (isHead : head ∈ heads)
    (empty : lists head = []) :
    links.next head = head ∧ links.prev head = head := by
  have ring := are.rings head isHead
  rw [empty] at ring
  exact ring.between

variable [DecidableEq Address]

/-- One circle takes other nodes, and nothing outside it changes. -/
theorem update
    (are : QueuesAre links heads lists)
    (isHead : head ∈ heads)
    (ring : after.Ring head nodes)
    (new : ∀ node ∈ nodes, node ∈ lists head ∨ OnNoQueue heads lists node)
    (gone :
      ∀ node ∈ lists head, node ∉ nodes →
        after.next node = node ∧ after.prev node = node)
    (kept :
      ∀ other, other ∉ head :: lists head → other ∉ nodes →
        after.next other = links.next other ∧
          after.prev other = links.prev other) :
    QueuesAre after heads (Function.update lists head nodes) := by
  have elsewhere :
      ∀ other ∈ heads, other ≠ head →
        ∀ node ∈ other :: lists other, node ∉ head :: lists head ∧ node ∉ nodes := by
    intro other isOther different node member
    have outside := are.circles_apart isHead isOther different member
    refine ⟨outside, fun inNodes => ?_⟩
    rcases new node inNodes with old | off
    · exact outside (List.mem_cons_of_mem head old)
    · rcases List.mem_cons.mp member with rfl | inOther
      · exact off.notHead isOther
      · exact off.notMem other isOther inOther
  refine
    { rings := fun other isOther => ?_
      nodes := fun other isOther node member => ?_
      apart := fun first isFirst second isSecond different node inFirst => ?_
      alone := fun node off => ?_ }
  · by_cases same : other = head
    · subst same
      rw [Function.update_self]
      exact ring
    · rw [Function.update_of_ne same]
      have old := are.rings other isOther
      refine ⟨old.between.congr ?_ ?_, old.nodup⟩
      · intro node member
        obtain ⟨outside, notNew⟩ := elsewhere other isOther same node member
        exact (kept node outside notNew).1
      · intro node member
        have onCircle : node ∈ other :: lists other := by
          rcases List.mem_append.mp member with inList | isOther
          · exact List.mem_cons_of_mem other inList
          · exact List.mem_singleton.mp isOther ▸ List.mem_cons_self
        obtain ⟨outside, notNew⟩ := elsewhere other isOther same node onCircle
        exact (kept node outside notNew).2
  · by_cases same : other = head
    · subst same
      rw [Function.update_self] at member
      rcases new node member with old | off
      · exact are.nodes other isOther node old
      · exact off.notHead
    · rw [Function.update_of_ne same] at member
      exact are.nodes other isOther node member
  · by_cases one : first = head
    · subst one
      rw [Function.update_self] at inFirst
      rw [Function.update_of_ne (Ne.symm different)]
      exact fun inSecond =>
        (elsewhere second isSecond (Ne.symm different) node
          (List.mem_cons_of_mem second inSecond)).2 inFirst
    · rw [Function.update_of_ne one] at inFirst
      by_cases other : second = head
      · subst other
        rw [Function.update_self]
        exact (elsewhere first isFirst one node
          (List.mem_cons_of_mem first inFirst)).2
      · rw [Function.update_of_ne other]
        exact are.apart first isFirst second isSecond different node inFirst
  · have notNew : node ∉ nodes := by
      have notMem := off.notMem head isHead
      rwa [Function.update_self] at notMem
    by_cases inOld : node ∈ lists head
    · exact gone node inOld notNew
    · have outside : node ∉ head :: lists head := by
        refine List.mem_cons.not.mpr (not_or.mpr ⟨?_, inOld⟩)
        rintro rfl
        exact off.notHead isHead
      have offOld : OnNoQueue heads lists node := by
        refine ⟨off.notHead, fun other isOther => ?_⟩
        by_cases same : other = head
        · subst same
          exact inOld
        · have notMem := off.notMem other isOther
          rwa [Function.update_of_ne same] at notMem
      obtain ⟨next, prev⟩ := kept node outside notNew
      rw [next, prev]
      exact are.alone node offOld

/-- A node is put into a circle. -/
theorem insert
    (are : QueuesAre links heads lists)
    (isHead : head ∈ heads)
    (split : lists head = before ++ later)
    (off : OnNoQueue heads lists node) :
    QueuesAre (links.addBefore (firstOr head later) node) heads
      (Function.update lists head (before ++ node :: later)) := by
  have ring := are.rings head isHead
  rw [split] at ring
  have notHead : node ≠ head := by
    rintro rfl
    exact off.notHead isHead
  have notMem : node ∉ before ++ later := split ▸ off.notMem head isHead
  have fresh : node ∉ head :: (before ++ later) :=
    List.mem_cons.not.mpr (not_or.mpr ⟨notHead, notMem⟩)
  have target : firstOr head later ∈ head :: (before ++ later) := by
    cases later with
    | nil => exact List.mem_cons_self
    | cons first rest => simp [firstOr]
  have notTarget : firstOr head later ≠ node := by
    rintro same
    exact fresh (same ▸ target)
  have behind : links.prev (firstOr head later) ∈ head :: (before ++ later) :=
    List.mem_append_left later
      (Links.Between.prev_mem ring.between : _ ∈ head :: before)
  refine are.update isHead (ring.addBefore fresh) ?_ ?_ ?_
  · intro other member
    rw [split]
    rcases List.mem_append.mp member with inBefore | inLater
    · exact .inl (List.mem_append_left later inBefore)
    · rcases List.mem_cons.mp inLater with rfl | inLater
      · exact .inr off
      · exact .inl (List.mem_append_right before inLater)
  · intro other member notNew
    rw [split] at member
    refine absurd ?_ notNew
    rcases List.mem_append.mp member with inBefore | inLater
    · exact List.mem_append_left _ inBefore
    · exact List.mem_append_right before (List.mem_cons_of_mem node inLater)
  · intro other outside notNew
    rw [split] at outside
    have notNode : other ≠ node := by
      rintro rfl
      exact notNew (List.mem_append_right before List.mem_cons_self)
    constructor
    · refine Links.addBefore_next_of_ne notTarget ?_ notNode
      rintro rfl
      exact outside behind
    · refine Links.addBefore_prev_of_ne ?_ notNode
      rintro rfl
      exact outside target

/-- A node is taken out of its circle. -/
theorem remove
    (are : QueuesAre links heads lists)
    (isHead : head ∈ heads)
    (split : lists head = before ++ node :: later) :
    QueuesAre (links.remove node) heads
      (Function.update lists head (before ++ later)) := by
  have ring := are.rings head isHead
  rw [split] at ring
  have behind : links.prev node ∈ head :: (before ++ node :: later) :=
    List.mem_append_left (node :: later) ring.prev_node
  have next : links.next node ∈ head :: (before ++ node :: later) := by
    rw [ring.next_node]
    cases later with
    | nil => exact List.mem_cons_self
    | cons first rest => simp [firstOr]
  refine are.update isHead ring.remove ?_ ?_ ?_
  · intro other member
    rw [split]
    rcases List.mem_append.mp member with inBefore | inLater
    · exact .inl (List.mem_append_left _ inBefore)
    · exact .inl (List.mem_append_right before (List.mem_cons_of_mem node inLater))
  · intro other member notNew
    rw [split] at member
    have isNode : other = node := by
      by_contra different
      refine notNew ?_
      rcases List.mem_append.mp member with inBefore | inLater
      · exact List.mem_append_left later inBefore
      · exact List.mem_append_right before
          ((List.mem_cons.mp inLater).resolve_left different)
    rw [isNode]
    exact Links.remove_self
  · intro other outside notNew
    rw [split] at outside
    have notNode : other ≠ node := by
      rintro rfl
      exact outside
        (List.mem_cons_of_mem head (List.mem_append_right before List.mem_cons_self))
    constructor
    · refine Links.remove_next_of_ne notNode ?_
      rintro rfl
      exact outside behind
    · refine Links.remove_prev_of_ne notNode ?_
      rintro rfl
      exact outside next

/-- A node that is taken out is on no queue. -/
theorem off_of_removed
    (are : QueuesAre links heads lists)
    (isHead : head ∈ heads)
    (split : lists head = before ++ node :: later) :
    OnNoQueue heads (Function.update lists head (before ++ later)) node := by
  have member : node ∈ lists head := by
    rw [split]
    exact List.mem_append_right before List.mem_cons_self
  refine ⟨are.nodes head isHead node member, fun other isOther => ?_⟩
  by_cases same : other = head
  · subst same
    have nodup := (List.nodup_cons.mp (are.rings other isOther).nodup).2
    rw [split] at nodup
    rw [Function.update_self]
    exact (List.nodup_cons.mp (List.perm_middle.nodup_iff.mp nodup)).1
  · rw [Function.update_of_ne same]
    exact are.apart head isHead other isOther (Ne.symm same) node member

end QueuesAre

/-! ## The operations -/

variable [DecidableEq Address]

theorem Links.listDel_eq_remove :
    links.listDel node = links.remove node :=
  rfl

theorem Links.queueAdd_eq_addBefore :
    links.queueAdd head node = links.addBefore head node :=
  rfl

theorem Links.queueAddBefore_eq_addBefore :
    links.queueAddBefore target node = links.addBefore target node :=
  rfl

theorem Links.queueAddTop_eq_queueAddAfter :
    links.queueAddTop head node = links.queueAddAfter head node :=
  rfl

/-- Behind the target is before what comes behind it. -/
theorem Links.queueAddAfter_eq_addBefore
    (back : links.prev (links.next target) = target)
    (notTarget : node ≠ target)
    (notNext : node ≠ links.next target) :
    links.queueAddAfter target node =
      links.addBefore (links.next target) node := by
  simp [Links.queueAddAfter, Links.addBefore, Links.setNext, Links.setPrev,
    back, Ne.symm notTarget, Ne.symm notNext]

/-- A head that is put before itself stays alone. -/
theorem Links.addBefore_alone
    (next : links.next node = node)
    (prev : links.prev node = node) :
    links.addBefore node node = links := by
  have sameNext : Function.update links.next node node = links.next :=
    Function.update_eq_self_iff.mpr next.symm
  have samePrev : Function.update links.prev node node = links.prev :=
    Function.update_eq_self_iff.mpr prev.symm
  simp [Links.addBefore, prev, sameNext, samePrev]

/-- A head that is put behind itself stays alone. -/
theorem Links.queueAddTop_alone
    (next : links.next node = node)
    (prev : links.prev node = node) :
    links.queueAddTop node node = links := by
  have sameNext : Function.update links.next node node = links.next :=
    Function.update_eq_self_iff.mpr next.symm
  have samePrev : Function.update links.prev node node = links.prev :=
    Function.update_eq_self_iff.mpr prev.symm
  simp [Links.queueAddTop, Links.setNext, Links.setPrev, next, sameNext,
    samePrev]

namespace QueuesAre

/-- `queue_add_before` inserts in front of the target. -/
theorem addBefore
    (are : QueuesAre links heads lists)
    (isHead : head ∈ heads)
    (member : target ∈ head :: lists head)
    (off : OnNoQueue heads lists node) :
    QueuesAre (links.queueAddBefore target node) heads
      ((QueueOp.addBefore target node).onLists lists).1 := by
  have ring := are.rings head isHead
  obtain ⟨headFresh, nodup⟩ := List.nodup_cons.mp ring.nodup
  obtain ⟨before, later, split, isTarget, first⟩ :
      ∃ before later,
        lists head = before ++ later ∧ target = firstOr head later ∧
          target ∉ before := by
    rcases List.mem_cons.mp member with rfl | inList
    · exact ⟨lists target, [], (List.append_nil _).symm, rfl, headFresh⟩
    · obtain ⟨before, later, split⟩ := List.append_of_mem inList
      refine ⟨before, target :: later, split, rfl, fun inBefore => ?_⟩
      rw [split] at nodup
      exact (List.nodup_append.mp nodup).2.2 target inBefore target
        List.mem_cons_self rfl
  have inserted := are.insert isHead split off
  rw [← isTarget] at inserted
  rw [Links.queueAddBefore_eq_addBefore]
  refine inserted.congr fun other isOther => ?_
  show (insertBefore target node (lists other ++ [other])).dropLast = _
  by_cases same : other = head
  · subst same
    rw [Function.update_self, split, isTarget]
    exact insertBefore_circle (isTarget ▸ first)
  · have outside : target ∉ other :: lists other := fun inOther =>
      are.circles_apart isHead isOther same inOther member
    have notMem : target ∉ lists other ++ [other] := by
      intro inCircle
      refine outside (List.mem_cons.mpr ?_)
      exact ((List.mem_append.mp inCircle).imp_right List.mem_singleton.mp).symm
    rw [Function.update_of_ne same, insertBefore_of_notMem notMem,
      List.dropLast_concat]

/-- `queue_add_after` inserts behind the target. -/
theorem addAfter
    (are : QueuesAre links heads lists)
    (isHead : head ∈ heads)
    (member : target ∈ head :: lists head)
    (off : OnNoQueue heads lists node) :
    QueuesAre (links.queueAddAfter target node) heads
      ((QueueOp.addAfter target node).onLists lists).1 := by
  have ring := are.rings head isHead
  obtain ⟨front, later, split⟩ := List.append_of_mem member
  have first : target ∉ front := fun inFront => by
    have nodup := ring.nodup
    rw [split] at nodup
    exact (List.nodup_append.mp nodup).2.2 target inFront target
      List.mem_cons_self rfl
  obtain ⟨before, isList, inserted⟩ :
      ∃ before,
        lists head = before ++ later ∧
          (insertAfter target node (head :: lists head)).tail =
            before ++ node :: later := by
    rw [split, insertAfter_append first]
    cases front with
    | nil =>
        exact ⟨[], (List.cons.inj split).2, rfl⟩
    | cons other before =>
        refine ⟨before ++ [target], ?_, List.append_cons before target _⟩
        rw [← List.append_cons]
        exact (List.cons.inj split).2
  have behind := ring.behind split
  have isNext := behind.next_start
  have back := behind.prev_first
  rw [← isNext] at back
  have onCircle : ∀ other ∈ head :: lists head, node ≠ other := by
    rintro other member rfl
    rcases List.mem_cons.mp member with rfl | inList
    · exact off.notHead isHead
    · exact off.notMem head isHead inList
  have nextMem : links.next target ∈ head :: lists head := by
    rw [isNext, isList]
    cases later with
    | nil => exact List.mem_cons_self
    | cons next rest => simp [firstOr]
  rw [Links.queueAddAfter_eq_addBefore back (onCircle target member)
    (onCircle _ nextMem), isNext]
  refine (are.insert isHead isList off).congr fun other isOther => ?_
  show (insertAfter target node (other :: lists other)).tail = _
  by_cases same : other = head
  · subst same
    rw [Function.update_self, inserted]
  · have outside : target ∉ other :: lists other := fun inOther =>
      are.circles_apart isHead isOther same inOther member
    rw [Function.update_of_ne same, insertAfter_of_notMem outside, List.tail_cons]

/-- `queue_add` puts a node at the end. -/
theorem add
    (are : QueuesAre links heads lists)
    (isHead : head ∈ heads)
    (off : OnNoQueue heads lists node) :
    QueuesAre (links.queueAdd head node) heads
      (Function.update lists head (lists head ++ [node])) := by
  have split : lists head = lists head ++ [] := (List.append_nil _).symm
  exact are.insert isHead split off

/-- `queue_add_top` puts a node in front. -/
theorem addTop
    (are : QueuesAre links heads lists)
    (isHead : head ∈ heads)
    (off : OnNoQueue heads lists node) :
    QueuesAre (links.queueAddTop head node) heads
      (Function.update lists head (node :: lists head)) := by
  rw [Links.queueAddTop_eq_queueAddAfter]
  refine (are.addAfter isHead List.mem_cons_self off).congr
    fun other isOther => ?_
  show _ = (insertAfter head node (other :: lists other)).tail
  by_cases same : other = head
  · subst same
    rw [Function.update_self, insertAfter, if_pos rfl, List.tail_cons]
  · have outside : head ∉ other :: lists other := fun inOther =>
      are.circles_apart isHead isOther same inOther List.mem_cons_self
    rw [Function.update_of_ne same, insertAfter_of_notMem outside, List.tail_cons]

/-- `list_del` takes a node out of its queue, if it is on one. -/
theorem listDel
    (are : QueuesAre links heads lists)
    (notHead : node ∉ heads) :
    QueuesAre (links.listDel node) heads
      fun queue => (lists queue).erase node := by
  rw [Links.listDel_eq_remove]
  by_cases off : ∀ head ∈ heads, node ∉ lists head
  · obtain ⟨next, prev⟩ := are.alone node ⟨notHead, off⟩
    rw [Links.remove_alone next prev]
    exact are.congr fun queue isQueue =>
      List.erase_of_not_mem (off queue isQueue)
  · simp only [not_forall, not_not] at off
    obtain ⟨head, isHead, member⟩ := off
    obtain ⟨before, later, split⟩ := List.append_of_mem member
    refine (are.remove isHead split).congr fun queue isQueue => ?_
    by_cases same : queue = head
    · subst same
      have nodup := (List.nodup_cons.mp (are.rings queue isQueue).nodup).2
      rw [split] at nodup
      have first : node ∉ before := fun inBefore =>
        (List.nodup_append.mp nodup).2.2 node inBefore node
          List.mem_cons_self rfl
      rw [Function.update_self, split, List.erase_append_right _ first,
        List.erase_cons_head]
    · rw [Function.update_of_ne same]
      exact List.erase_of_not_mem
        (are.apart head isHead queue isQueue (Ne.symm same) node member)

/-- `queue_get_top` takes the first node, or returns the head of an empty queue. -/
theorem getTop
    (are : QueuesAre links heads lists)
    (isHead : head ∈ heads) :
    QueuesAre (links.queueGetTop head).1 heads
        (Function.update lists head (lists head).tail) ∧
      (links.queueGetTop head).2 = (lists head).headD head := by
  have next := (are.rings head isHead).next_head
  rw [Links.queueGetTop, Links.queueRefTop, Links.listDel_eq_remove]
  cases nodes : lists head with
  | nil =>
      obtain ⟨alone, prev⟩ := are.alone_of_empty isHead nodes
      rw [alone, Links.remove_alone alone prev, List.tail_nil, ← nodes,
        Function.update_eq_self]
      exact ⟨are, by rw [nodes]; rfl⟩
  | cons first rest =>
      rw [nodes] at next
      rw [show links.next head = first from next]
      have split : lists head = [] ++ first :: rest := nodes
      exact ⟨are.remove isHead split, rfl⟩

/-- `queue_get_last` takes the last node, or returns the head of an empty queue. -/
theorem getLast
    (are : QueuesAre links heads lists)
    (isHead : head ∈ heads) :
    QueuesAre (links.queueGetLast head).1 heads
        (Function.update lists head (lists head).dropLast) ∧
      (links.queueGetLast head).2 = (lists head).getLastD head := by
  have ring := are.rings head isHead
  rw [Links.queueGetLast, Links.queueRefLast, Links.listDel_eq_remove]
  rcases List.eq_nil_or_concat' (lists head) with nodes | ⟨front, last, nodes⟩
  · obtain ⟨alone, prev⟩ := are.alone_of_empty isHead nodes
    rw [prev, Links.remove_alone alone prev, nodes, List.dropLast_nil, ← nodes,
      Function.update_eq_self]
    exact ⟨are, by rw [nodes]; rfl⟩
  · have split : head :: lists head = (head :: front) ++ last :: [] :=
      congrArg (head :: ·) nodes
    have isLast : links.prev head = last := (ring.behind split).2
    have removed := are.remove isHead nodes
    rw [List.append_nil] at removed
    rw [isLast, nodes, List.dropLast_concat]
    exact ⟨removed, (List.getLastD_concat ..).symm⟩

/-- `queue_rotate` puts the first node at the end. -/
theorem rotate
    (are : QueuesAre links heads lists)
    (isHead : head ∈ heads) :
    QueuesAre (links.queueRotate head) heads
      (Function.update lists head
        ((lists head).tail ++ (lists head).head?.toList)) := by
  obtain ⟨taken, isTop⟩ := are.getTop isHead
  show QueuesAre ((links.queueGetTop head).1.queueAdd head
    (links.queueGetTop head).2) heads _
  rw [isTop]
  cases nodes : lists head with
  | nil =>
      rw [nodes] at taken
      obtain ⟨next, prev⟩ :=
        taken.alone_of_empty isHead (Function.update_self ..)
      rw [List.headD_nil, Links.queueAdd_eq_addBefore,
        Links.addBefore_alone next prev]
      exact taken
  | cons first rest =>
      rw [nodes] at taken
      have split : lists head = [] ++ first :: rest := nodes
      have off := are.off_of_removed isHead split
      have added := taken.add isHead off
      rw [Function.update_idem, Function.update_self] at added
      exact added

/-- `queue_reverse_rotate` puts the last node in front. -/
theorem reverseRotate
    (are : QueuesAre links heads lists)
    (isHead : head ∈ heads) :
    QueuesAre (links.queueReverseRotate head) heads
      (Function.update lists head
        ((lists head).getLast?.toList ++ (lists head).dropLast)) := by
  obtain ⟨taken, isLast⟩ := are.getLast isHead
  show QueuesAre ((links.queueGetLast head).1.queueAddTop head
    (links.queueGetLast head).2) heads _
  rw [isLast]
  rcases List.eq_nil_or_concat' (lists head) with nodes | ⟨front, last, nodes⟩
  · rw [nodes] at taken
    obtain ⟨next, prev⟩ :=
      taken.alone_of_empty isHead (Function.update_self ..)
    rw [nodes, List.getLastD_nil, Links.queueAddTop_alone next prev]
    exact taken
  · have off := are.off_of_removed isHead nodes
    rw [List.append_nil] at off
    rw [nodes, List.dropLast_concat] at taken
    have added := taken.addTop isHead off
    rw [Function.update_idem, Function.update_self] at added
    rw [nodes, List.getLastD_concat, List.getLast?_concat, List.dropLast_concat]
    exact added

end QueuesAre

/-! ## Runs -/

/-- A call does to the lists what it should, and returns what it should. -/
theorem QueuesAre.run
    {op : QueueOp Address}
    (are : QueuesAre links heads lists)
    (allowed : op.Allowed heads lists) :
    QueuesAre (op.run links).1 heads (op.onLists lists).1 ∧
      (op.run links).2 = (op.onLists lists).2 := by
  cases op with
  | add head node =>
      exact ⟨are.add allowed.1 allowed.2, rfl⟩
  | addTop head node =>
      exact ⟨are.addTop allowed.1 allowed.2, rfl⟩
  | addBefore target node =>
      obtain ⟨⟨head, isHead, member⟩, off⟩ := allowed
      exact ⟨are.addBefore isHead member off, rfl⟩
  | addAfter target node =>
      obtain ⟨⟨head, isHead, member⟩, off⟩ := allowed
      exact ⟨are.addAfter isHead member off, rfl⟩
  | del head node =>
      have deleted := are.listDel allowed.2
      exact ⟨deleted,
        congrArg QueueAnswer.isEmpty (deleted.queueIsEmpty_eq allowed.1)⟩
  | getTop head =>
      obtain ⟨taken, isTop⟩ := are.getTop allowed
      exact ⟨taken, congrArg QueueAnswer.node isTop⟩
  | getLast head =>
      obtain ⟨taken, isLast⟩ := are.getLast allowed
      exact ⟨taken, congrArg QueueAnswer.node isLast⟩
  | rotate head =>
      exact ⟨are.rotate allowed, rfl⟩
  | reverseRotate head =>
      exact ⟨are.reverseRotate allowed, rfl⟩

/-- So do calls one after the other. -/
theorem QueuesAre.runOps
    {ops : List (QueueOp Address)}
    (are : QueuesAre links heads lists)
    (allowed : QueueOpsAllowed heads ops lists) :
    QueuesAre (runQueueOps ops links).1 heads (queueOpsOnLists ops lists).1 ∧
      (runQueueOps ops links).2 = (queueOpsOnLists ops lists).2 := by
  induction ops generalizing links lists with
  | nil =>
      exact ⟨are, rfl⟩
  | cons op later inductionHypothesis =>
      obtain ⟨nextAre, sameAnswer⟩ := are.run allowed.1
      obtain ⟨lastAre, sameAnswers⟩ := inductionHypothesis nextAre allowed.2
      exact ⟨lastAre, congrArg₂ List.cons sameAnswer sameAnswers⟩

/--
After any calls the queues are well formed with the nodes that the operations on
lists leave, the calls have returned what those return, and a node is not linked
exactly when it is on no queue.
-/
theorem queues_refine_lists
    {ops : List (QueueOp Address)}
    (are : QueuesAre links heads lists)
    (allowed : QueueOpsAllowed heads ops lists) :
    QueuesAre (runQueueOps ops links).1 heads (queueOpsOnLists ops lists).1 ∧
      (runQueueOps ops links).2 = (queueOpsOnLists ops lists).2 ∧
      ∀ node ∉ heads,
        (runQueueOps ops links).1.listNotLinked node = true ↔
          ∀ head ∈ heads, node ∉ (queueOpsOnLists ops lists).1 head := by
  obtain ⟨lastAre, sameAnswers⟩ := are.runOps allowed
  exact ⟨lastAre, sameAnswers, fun node notHead =>
    lastAre.listNotLinked_iff notHead⟩

end Updates

/-- Calls on two queues, one of which is empty when it is rotated. -/
theorem queues_refine_lists_mixed :
    (runQueueOps
        [.add 0 2, .addAfter 0 3, .addBefore 2 4, .rotate 1, .getLast 0,
          .rotate 0, .addTop 1 2, .del 0 3, .del 0 4]
        { next := id, prev := id : Links Nat }).2 =
      [.nothing, .nothing, .nothing, .nothing, .node 2, .nothing, .nothing,
        .isEmpty false, .isEmpty true] := by
  have are :
      QueuesAre { next := id, prev := id : Links Nat } {0, 1} fun _ => [] :=
    QueuesAre.of_empty (fun _ => rfl) fun _ => rfl
  refine (queues_refine_lists are ?_).2.1
  simp [QueueOpsAllowed, QueueOp.Allowed, onNoQueue_iff, QueueOp.onLists,
      insertAfter, insertBefore, Function.update]

end RiscvWorkshop
