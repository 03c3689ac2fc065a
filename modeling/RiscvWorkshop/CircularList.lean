import Mathlib.Tactic.Common
import Mathlib.Data.List.Nodup
import Mathlib.Logic.Function.Basic

namespace RiscvWorkshop

/-!
# Circular lists with links both ways

A head and its nodes are linked in a circle, each to the next one and back.
Nothing is said of what the nodes are part of.
-/

/-- The link words of the nodes and of the heads. -/
structure Links (Address : Type*) where
  next : Address → Address
  prev : Address → Address

section Linking

variable {Address : Type*}

/-- The nodes between two addresses, linked both ways from end to end. -/
def Links.Between
    (links : Links Address) :
    Address → List Address → Address → Prop
  | start, [], stop => links.next start = stop ∧ links.prev stop = start
  | start, node :: rest, stop =>
      links.next start = node ∧ links.prev node = start ∧
        links.Between node rest stop

/-- The circle of a head and its nodes, which are all different. -/
structure Links.Ring
    (links : Links Address)
    (head : Address)
    (nodes : List Address) : Prop where
  between : links.Between head nodes head
  nodup : (head :: nodes).Nodup

/-- The first of the nodes, or what comes behind them. -/
def firstOr
    (stop : Address) : List Address → Address
  | [] => stop
  | node :: _ => node

variable {links after : Links Address}
variable {head start stop node : Address}
variable {nodes others before later : List Address}

/-- From the start the first node is reached. -/
theorem Links.Between.next_start
    (between : links.Between start nodes stop) :
    links.next start = firstOr stop nodes := by
  cases nodes with
  | nil => exact between.1
  | cons first rest => exact between.1

/-- From a place within the nodes the later ones are linked. -/
theorem Links.Between.suffix
    (between : links.Between start (before ++ node :: later) stop) :
    links.Between node later stop := by
  induction before generalizing start with
  | nil => exact between.2.2
  | cons first rest inductionHypothesis =>
      exact inductionHypothesis between.2.2

/-- Back from a place the earlier nodes or the start are reached. -/
theorem Links.Between.prev_mem
    (between : links.Between start (before ++ later) stop) :
    links.prev (firstOr stop later) ∈ start :: before := by
  induction before generalizing start with
  | nil =>
      cases later with
      | nil => exact List.mem_singleton.mpr between.2
      | cons first rest => exact List.mem_singleton.mpr between.2.1
  | cons first rest inductionHypothesis =>
      exact List.mem_cons_of_mem start (inductionHypothesis between.2.2)

/-- Back from the stop the last node or the start is reached. -/
theorem Links.Between.prev_stop
    (between : links.Between start nodes stop) :
    links.prev stop ∈ start :: nodes := by
  rw [← List.append_nil nodes] at between
  exact between.prev_mem

/-- Back from the first node the start is reached. -/
theorem Links.Between.prev_first
    (between : links.Between start later stop) :
    links.prev (firstOr stop later) = start := by
  cases later with
  | nil => exact between.2
  | cons first rest => exact between.2.1

/-- The nodes up to a place and those behind it. -/
theorem Links.between_append :
    links.Between start (before ++ node :: later) stop ↔
      links.Between start before node ∧ links.Between node later stop := by
  induction before generalizing start with
  | nil =>
      exact and_assoc.symm
  | cons first rest inductionHypothesis =>
      simp only [List.cons_append, Links.Between, inductionHypothesis, and_assoc]

/-- The links of other nodes do not matter. -/
theorem Links.Between.congr
    (between : links.Between start nodes stop)
    (sameNext : ∀ other ∈ start :: nodes, after.next other = links.next other)
    (samePrev : ∀ other ∈ nodes ++ [stop],
      after.prev other = links.prev other) :
    after.Between start nodes stop := by
  induction nodes generalizing start with
  | nil =>
      exact ⟨(sameNext start List.mem_cons_self).trans between.1,
        (samePrev stop (by simp)).trans between.2⟩
  | cons first rest inductionHypothesis =>
      refine ⟨(sameNext start List.mem_cons_self).trans between.1,
        (samePrev first (by simp)).trans between.2.1, ?_⟩
      refine inductionHypothesis between.2.2 ?_ ?_
      · exact fun other member =>
          sameNext other (List.mem_cons_of_mem start member)
      · exact fun other member =>
          samePrev other (List.mem_cons_of_mem first member)

/-- The last link of a row of nodes is led to another place. -/
theorem Links.Between.retarget
    {target : Address}
    (between : links.Between start nodes stop)
    (nodup : (start :: nodes).Nodup)
    (next : after.next (links.prev stop) = target)
    (prev : after.prev target = links.prev stop)
    (sameNext : ∀ other ∈ start :: nodes,
      other ≠ links.prev stop → after.next other = links.next other)
    (samePrev : ∀ other ∈ nodes, after.prev other = links.prev other) :
    after.Between start nodes target := by
  induction nodes generalizing start with
  | nil =>
      rw [between.2] at next prev
      exact ⟨next, prev⟩
  | cons first rest inductionHypothesis =>
      obtain ⟨startFresh, restNodup⟩ := List.nodup_cons.mp nodup
      have last : links.prev stop ∈ first :: rest := between.2.2.prev_stop
      have notLast : start ≠ links.prev stop :=
        fun same => startFresh (same ▸ last)
      refine ⟨(sameNext start List.mem_cons_self notLast).trans between.1,
        (samePrev first List.mem_cons_self).trans between.2.1, ?_⟩
      refine inductionHypothesis between.2.2 restNodup ?_ ?_
      · exact fun other member =>
          sameNext other (List.mem_cons_of_mem start member)
      · exact fun other member =>
          samePrev other (List.mem_cons_of_mem first member)

/-- The links spell out one list of nodes between two addresses. -/
theorem Links.Between.unique
    (between : links.Between start nodes stop)
    (same : links.Between start others stop)
    (outside : stop ∉ nodes)
    (otherOutside : stop ∉ others) :
    nodes = others := by
  induction nodes generalizing start others with
  | nil =>
      cases others with
      | nil => rfl
      | cons other rest =>
          have isStop := same.1.symm.trans between.1
          exact absurd (isStop ▸ List.mem_cons_self) otherOutside
  | cons first rest inductionHypothesis =>
      cases others with
      | nil =>
          have isStop := between.1.symm.trans same.1
          exact absurd (isStop ▸ List.mem_cons_self) outside
      | cons other more =>
          obtain rfl := between.1.symm.trans same.1
          rw [inductionHypothesis between.2.2 same.2.2
            (fun member => outside (List.mem_cons_of_mem _ member))
            (fun member => otherOutside (List.mem_cons_of_mem _ member))]

namespace Links.Ring

/-- The head is none of the nodes. -/
theorem head_notMem
    (ring : links.Ring head nodes) :
    head ∉ nodes :=
  (List.nodup_cons.mp ring.nodup).1

/-- A head has one list of nodes. -/
theorem unique
    (ring : links.Ring head nodes)
    (same : links.Ring head others) :
    nodes = others :=
  ring.between.unique same.between ring.head_notMem same.head_notMem

/-- Behind the head comes the first node, or the head itself. -/
theorem next_head
    (ring : links.Ring head nodes) :
    links.next head = firstOr head nodes :=
  ring.between.next_start

/-- Behind a node comes the first of the later ones, or the head. -/
theorem next_node
    (ring : links.Ring head (before ++ node :: later)) :
    links.next node = firstOr head later :=
  ring.between.suffix.next_start

/-- Back from a node comes one of the earlier ones, or the head. -/
theorem prev_node
    (ring : links.Ring head (before ++ node :: later)) :
    links.prev node ∈ head :: before :=
  (Links.between_append.mp ring.between).1.prev_stop

/-- From the head or a node the later nodes lead back to the head. -/
theorem behind
    {target : Address}
    (ring : links.Ring head nodes)
    (split : head :: nodes = before ++ target :: later) :
    links.Between target later head := by
  cases before with
  | nil =>
      obtain ⟨rfl, rfl⟩ := List.cons.inj split
      exact ring.between
  | cons first rest =>
      obtain ⟨rfl, rfl⟩ := List.cons.inj split
      exact (Links.between_append.mp ring.between).2

end Links.Ring

/-! ## A node is put before another -/

variable [DecidableEq Address]

/-- `node` goes in front of `target`: the two links of each are written. -/
def Links.addBefore
    (links : Links Address)
    (target node : Address) : Links Address :=
  let behind := Function.update links.prev node (links.prev target)
  let next := Function.update links.next node target
  { next := Function.update next (behind target) node
    prev := Function.update behind target node }

section AddBefore

variable {target other : Address}

/-- Behind the new node comes the target. -/
theorem Links.addBefore_next_node
    (notTarget : target ≠ node)
    (notBehind : links.prev target ≠ node) :
    (links.addBefore target node).next node = target := by
  simp [Links.addBefore, notTarget, notBehind.symm]

/-- Behind what was before the target comes the new node. -/
theorem Links.addBefore_next_behind
    (notTarget : target ≠ node) :
    (links.addBefore target node).next (links.prev target) = node := by
  simp [Links.addBefore, notTarget]

theorem Links.addBefore_prev_node
    (notTarget : target ≠ node) :
    (links.addBefore target node).prev node = links.prev target := by
  simp [Links.addBefore, notTarget.symm]

theorem Links.addBefore_prev_target :
    (links.addBefore target node).prev target = node := by
  simp [Links.addBefore]

/-- No other link to a next node is written. -/
theorem Links.addBefore_next_of_ne
    (notTarget : target ≠ node)
    (notBehind : other ≠ links.prev target)
    (notNode : other ≠ node) :
    (links.addBefore target node).next other = links.next other := by
  simp [Links.addBefore, notTarget, notBehind, notNode]

/-- No other link back is written. -/
theorem Links.addBefore_prev_of_ne
    (notTarget : other ≠ target)
    (notNode : other ≠ node) :
    (links.addBefore target node).prev other = links.prev other := by
  simp [Links.addBefore, notTarget, notNode]

end AddBefore

/-- What is linked behind a target is not changed in front of it. -/
theorem Links.Between.addBefore_behind
    (between : links.Between start later stop)
    (nodup : (start :: later).Nodup)
    (outside : stop ∉ later)
    (fresh : node ∉ start :: later)
    (notStop : node ≠ stop) :
    (links.addBefore (firstOr stop later) node).Between node later stop := by
  have behind : links.prev (firstOr stop later) = start :=
    between.prev_first
  have notStart : start ≠ node :=
    fun same => fresh (same ▸ List.mem_cons_self)
  cases later with
  | nil =>
      refine ⟨Links.addBefore_next_node notStop.symm ?_,
        Links.addBefore_prev_target⟩
      rw [behind]
      exact notStart
  | cons first rest =>
      have notFirst : first ≠ node := by
        rintro rfl
        exact fresh (by simp)
      have notBehind : links.prev first ≠ node :=
        fun same => notStart (behind.symm.trans same)
      refine ⟨Links.addBefore_next_node notFirst notBehind,
        Links.addBefore_prev_target, ?_⟩
      refine between.2.2.congr ?_ ?_
      · intro other member
        refine Links.addBefore_next_of_ne notFirst ?_ ?_
        · rintro rfl
          rw [behind] at member
          exact (List.nodup_cons.mp nodup).1 member
        · rintro rfl
          exact fresh (List.mem_cons_of_mem _ member)
      · intro other member
        refine Links.addBefore_prev_of_ne ?_ ?_
        · rintro rfl
          rcases List.mem_append.mp member with inRest | isStop
          · exact (List.nodup_cons.mp (List.nodup_cons.mp nodup).2).1 inRest
          · exact outside (List.mem_singleton.mp isStop ▸ List.mem_cons_self)
        · rintro rfl
          rcases List.mem_append.mp member with inRest | isStop
          · exact fresh (by simp [inRest])
          · exact notStop (List.mem_singleton.mp isStop)

/-- The nodes with a new one before the later ones are linked. -/
theorem Links.Between.addBefore
    (between : links.Between start (before ++ later) stop)
    (nodup : (start :: (before ++ later)).Nodup)
    (outside : stop ∉ before ++ later)
    (fresh : node ∉ start :: (before ++ later))
    (notStop : node ≠ stop) :
    (links.addBefore (firstOr stop later) node).Between start
      (before ++ node :: later) stop := by
  have notTarget : firstOr stop later ≠ node := by
    cases later with
    | nil => exact notStop.symm
    | cons first rest =>
        rintro rfl
        exact fresh (by simp [firstOr])
  induction before generalizing start with
  | nil =>
      have behind : links.prev (firstOr stop later) = start :=
        between.prev_first
      refine ⟨?_, ?_, between.addBefore_behind nodup outside fresh notStop⟩
      · have next := links.addBefore_next_behind notTarget
        rw [behind] at next
        exact next
      · exact (Links.addBefore_prev_node notTarget).trans behind
  | cons first rest inductionHypothesis =>
      -- the start is neither the target nor what was in front of it
      have behind : links.prev (firstOr stop later) ∈ first :: rest :=
        Links.Between.prev_mem between.2.2
      obtain ⟨startFresh, restNodup⟩ := List.nodup_cons.mp nodup
      have notFirst : first ≠ firstOr stop later := by
        cases later with
        | nil =>
            rintro rfl
            exact outside (by simp)
        | cons second others =>
            rintro rfl
            simp at restNodup
      refine ⟨?_, ?_, ?_⟩
      · refine (Links.addBefore_next_of_ne notTarget ?_ ?_).trans between.1
        · intro same
          rw [← same] at behind
          exact startFresh (List.mem_append_left later behind)
        · rintro rfl
          exact fresh List.mem_cons_self
      · refine (Links.addBefore_prev_of_ne notFirst ?_).trans between.2.1
        rintro rfl
        exact fresh (by simp)
      · exact inductionHypothesis between.2.2 restNodup
          (fun member => outside (List.mem_cons_of_mem _ member))
          (fun member => fresh (List.mem_cons_of_mem _ member))

/-- A new node in front of the later ones gives a circle with it there. -/
theorem Links.Ring.addBefore
    (ring : links.Ring head (before ++ later))
    (fresh : node ∉ head :: (before ++ later)) :
    (links.addBefore (firstOr head later) node).Ring head
      (before ++ node :: later) := by
  have notHead : node ≠ head :=
    fun same => fresh (same ▸ List.mem_cons_self)
  refine ⟨ring.between.addBefore ring.nodup ring.head_notMem fresh notHead, ?_⟩
  have added : (head :: (before ++ node :: later)).Perm
      (node :: head :: (before ++ later)) :=
    (List.perm_middle.cons head).trans (List.Perm.swap node head _)
  exact added.nodup_iff.mpr (List.nodup_cons.mpr ⟨fresh, ring.nodup⟩)

/-- A node before the head is the last one of the ring. -/
theorem Links.Ring.addLast
    (ring : links.Ring head nodes)
    (fresh : node ∉ head :: nodes) :
    (links.addBefore head node).Ring head (nodes ++ [node]) := by
  rw [← List.append_nil nodes] at ring fresh
  exact ring.addBefore fresh

/-! ## A node is taken out -/

/-- Its neighbours are linked with each other, and `node` with itself. -/
def Links.remove
    (links : Links Address)
    (node : Address) : Links Address :=
  let prev := Function.update links.prev (links.next node) (links.prev node)
  let next := Function.update links.next (prev node) (links.next node)
  { next := Function.update next node node
    prev := Function.update prev node node }

section Remove

variable {other : Address}

/-- A node that was taken out is linked with itself. -/
theorem Links.remove_self :
    (links.remove node).next node = node ∧
      (links.remove node).prev node = node := by
  simp [Links.remove]

/-- No other link to a next node is written. -/
theorem Links.remove_next_of_ne
    (notNode : other ≠ node)
    (notBehind : other ≠ links.prev node) :
    (links.remove node).next other = links.next other := by
  by_cases alone : links.next node = node
  · simp [Links.remove, notNode, notBehind, alone]
  · simp [Links.remove, notNode, notBehind, Ne.symm alone]

/-- No other link back is written. -/
theorem Links.remove_prev_of_ne
    (notNode : other ≠ node)
    (notNext : other ≠ links.next node) :
    (links.remove node).prev other = links.prev other := by
  simp [Links.remove, notNode, notNext]

/-- A node that is linked with itself stays so, and nothing else changes. -/
theorem Links.remove_alone
    (next : links.next node = node)
    (prev : links.prev node = node) :
    links.remove node = links := by
  have sameNext : Function.update links.next node node = links.next :=
    Function.update_eq_self_iff.mpr next.symm
  have samePrev : Function.update links.prev node node = links.prev :=
    Function.update_eq_self_iff.mpr prev.symm
  simp [Links.remove, next, prev, sameNext, samePrev]

end Remove

/-- Without one of its nodes a ring is a ring. -/
theorem Links.Ring.remove
    (ring : links.Ring head (before ++ node :: later)) :
    (links.remove node).Ring head (before ++ later) := by
  obtain ⟨front, behind⟩ := Links.between_append.mp ring.between
  have isBefore : links.prev node ∈ head :: before := ring.prev_node
  have isNext : links.next node = firstOr head later := ring.next_node
  have around : ((head :: before) ++ node :: later).Nodup := ring.nodup
  obtain ⟨fresh, nodup⟩ :=
    List.nodup_cons.mp (List.perm_middle.nodup_iff.mp around)
  have notNode : ∀ other ∈ head :: (before ++ later), other ≠ node := by
    rintro other member rfl
    exact fresh member
  obtain ⟨frontNodup, laterNodup, apart⟩ :=
    List.nodup_append.mp nodup
  have nextMem : links.next node ∈ head :: later := by
    rw [isNext]
    cases later with
    | nil => exact List.mem_cons_self
    | cons first rest => exact List.mem_cons_of_mem head List.mem_cons_self
  have notNext : ∀ other ∈ before, other ≠ links.next node := by
    rintro other member rfl
    rcases List.mem_cons.mp nextMem with isHead | inLater
    · rw [isHead] at member
      exact (List.nodup_cons.mp frontNodup).1 member
    · exact apart _ (List.mem_cons_of_mem head member) _ inLater rfl
  have nextNotNode : links.next node ≠ node :=
    notNode _ (by
      rcases List.mem_cons.mp nextMem with isHead | inLater
      · exact isHead ▸ List.mem_cons_self
      · exact List.mem_cons_of_mem head (List.mem_append_right before inLater))
  have prevNotNode : links.prev node ≠ node :=
    notNode _ (List.mem_append_left later isBefore)
  have linked :
      (links.remove node).Between head before (links.next node) := by
    refine front.retarget frontNodup ?_ ?_ ?_ ?_
    · simp [Links.remove, prevNotNode, nextNotNode.symm]
    · simp [Links.remove, nextNotNode]
    · exact fun other member =>
        Links.remove_next_of_ne (notNode other (List.mem_append_left later member))
    · exact fun other member =>
        Links.remove_prev_of_ne
          (notNode other (List.mem_cons_of_mem head (List.mem_append_left later member)))
          (notNext other member)
  refine ⟨?_, nodup⟩
  rw [isNext] at linked
  cases later with
  | nil =>
      rw [List.append_nil]
      exact linked
  | cons first rest =>
      refine Links.between_append.mpr ⟨linked, behind.2.2.congr ?_ ?_⟩
      · intro other member
        refine Links.remove_next_of_ne (notNode other ?_) ?_
        · exact List.mem_cons_of_mem head (List.mem_append_right before member)
        · rintro rfl
          exact apart _ isBefore _ member rfl
      · intro other member
        refine Links.remove_prev_of_ne ?_ ?_
        · rintro rfl
          rcases List.mem_append.mp member with inRest | isHead
          · exact fresh (by simp [inRest])
          · exact fresh (List.mem_singleton.mp isHead ▸ List.mem_cons_self)
        · rw [isNext]
          rintro rfl
          rcases List.mem_append.mp member with inRest | isHead
          · exact (List.nodup_cons.mp laterNodup).1 inRest
          · exact apart head List.mem_cons_self _ List.mem_cons_self
              (List.mem_singleton.mp isHead).symm

end Linking

end RiscvWorkshop
