import Mathlib
import RiscvWorkshop.Run
import RiscvWorkshop.KernelBase

namespace RiscvWorkshop.ThreadWait

/-!
# A parent that waits and its children that exit

A child that exits gives back its references; the last one to give back a
reference notifies the parent, and the parent frees the child when it waits.
Each section under a lock is one step.  A child is known by a number of its
own, and its record stays after its thread was freed.
-/

/-- `thr_state`. -/
inductive ThrState where
  | dormant
  | run
  | runable
  | wait
  | exit
  | dead
deriving Repr, DecidableEq

/--
Where a child is in its own code: in `thr_thread_exit` with its own reference,
off its parent's list, after the first of its two releases, in the notification
when the reference was the last one, before it switches away, and away.
-/
inductive ChildPoint where
  | running
  | referred (ec : Nat)
  | exiting
  | dropped
  | notifying
  | leaving
  | away
deriving Repr, DecidableEq

/-- How far `notify_parent_child_exit` of a child is, whoever runs it. -/
inductive Notice where
  | idle
  | due
  | queued
  | woken
  | done
deriving Repr, DecidableEq

/-- A child, with the references that other threads have. -/
structure Child where
  refs : Nat
  state : ThrState
  exitcode : Nat
  point : ChildPoint
  notice : Notice
  held : Nat
deriving Repr, DecidableEq

/--
Where the parent is in `thr_thread_wait`: with its own reference, asleep on
`pque`, woken, with a child off the queue, without its own reference, or with
what it took from an empty queue.
-/
inductive ParentPoint where
  | outside
  | entered
  | asleep
  | woken (reason : WqueReason)
  | taken (child exitcode : Nat)
  | finished (child exitcode : Nat)
  | stray
deriving Repr, DecidableEq

/--
A parent with its children, the children that have a reference to it, the
threads that were freed, and the results of `thr_thread_wait`.
-/
structure Family where
  children : Nat → Option Child
  waiters : List Nat
  parent : ParentPoint
  parentRefs : Nat
  referrers : List Nat
  freed : List Nat
  returns : List (Except Errno (Nat × Nat))

/-- A parent without children, referred to by the tree of threads. -/
def childless : Family where
  children := fun _ => none
  waiters := []
  parent := .outside
  parentRefs := 1
  referrers := []
  freed := []
  returns := []

/-- A child as it is made, in the tree and on its parent's list. -/
def newChild : Child where
  refs := 2
  state := .run
  exitcode := 0
  point := .running
  notice := .idle
  held := 0

/-- `thr_ref_dec`: with the last reference the notification becomes due. -/
def Child.refDec (ch : Child) : Option (Bool × Child) :=
  match ch.refs with
  | 0 => none
  | refs + 1 =>
      if refs = 0 then
        some (true, { ch with refs, notice := .due })
      else
        some (false, { ch with refs })

/-- `wque_wakeup` of `pque`, where only the parent waits. -/
def ParentPoint.wake
    (reason : WqueReason) : ParentPoint → ParentPoint
  | .asleep => .woken reason
  | other => other

namespace Family

/-- Rewrite one child. -/
def setChild
    (fam : Family)
    (c : Nat)
    (ch : Child) : Family :=
  { fam with children := Function.update fam.children c (some ch) }

@[simp]
theorem setChild_self
    (fam : Family)
    (c : Nat)
    (ch : Child) :
    (fam.setChild c ch).children c = some ch :=
  Function.update_self ..

theorem setChild_of_ne
    (fam : Family)
    {c other : Nat}
    (different : other ≠ c)
    (ch : Child) :
    (fam.setChild c ch).children other = fam.children other :=
  Function.update_of_ne different ..

/-- `thr_thread_create`, by the parent. -/
def threadCreate
    (fam : Family)
    (c : Nat) : Option Family :=
  match fam.children c, fam.parent with
  | none, .outside =>
      some
        { fam.setChild c newChild with
          parentRefs := fam.parentRefs + 1
          referrers := c :: fam.referrers }
  | _, _ => none

/-- `thr_ref_inc`, by another thread that finds the child in the tree. -/
def refInc
    (fam : Family)
    (c : Nat) : Option Family :=
  match fam.children c with
  | none => none
  | some ch =>
      if ch.refs = 0 then
        none
      else
        some (fam.setChild c
          { ch with refs := ch.refs + 1, held := ch.held + 1 })

/-- `thr_ref_dec`, by another thread that has a reference. -/
def refDec
    (fam : Family)
    (c : Nat) : Option Family :=
  match fam.children c with
  | none => none
  | some ch =>
      if ch.held = 0 then
        none
      else
        ch.refDec.map fun (_, ch) =>
          fam.setChild c { ch with held := ch.held - 1 }

/-- The start of `thr_thread_exit`. -/
def threadExit
    (fam : Family)
    (c ec : Nat) : Option Family :=
  match fam.children c with
  | none => none
  | some ch =>
      if ch.point = .running then
        some (fam.setChild c
          { ch with refs := ch.refs + 1, point := .referred ec })
      else
        none

/-- `thr_ref_dec` of its own reference by an exiting child. -/
def release
    (fam : Family)
    (c : Nat)
    (ch : Child)
    (next : ChildPoint) : Option Family :=
  match ch.refDec with
  | none => none
  | some (true, ch) => some (fam.setChild c { ch with point := .notifying })
  | some (false, ch) => some (fam.setChild c { ch with point := next })

/--
The next section of `thr_thread_exit`.  The child is taken off its parent's
list first, and the last section is `sched_schedule`.
-/
def exitNext
    (fam : Family)
    (c : Nat) : Option Family :=
  match fam.children c with
  | none => none
  | some ch =>
      match ch.point with
      | .running => none
      | .referred ec =>
          match ch.refDec with
          | some (false, ch) =>
              some (fam.setChild c
                { ch with exitcode := ec, state := .exit, point := .exiting })
          | _ => none
      | .exiting => fam.release c ch .dropped
      | .dropped => fam.release c ch .leaving
      | .notifying => none
      | .leaving => some (fam.setChild c { ch with point := .away })
      | .away => none

/--
The next section of `notify_parent_child_exit`: queue the child, wake the
parent, and give back the reference to the parent.  A child that notifies for
itself goes on to `sched_schedule`.
-/
def notifyParentChildExit
    (fam : Family)
    (c : Nat) : Option Family :=
  match fam.children c with
  | none => none
  | some ch =>
      match ch.notice with
      | .idle => none
      | .due =>
          some
            { fam.setChild c { ch with notice := .queued, state := .dead } with
              waiters := fam.waiters ++ [c] }
      | .queued =>
          some
            { fam.setChild c { ch with notice := .woken } with
              parent := fam.parent.wake .released }
      | .woken =>
          if fam.parentRefs = 0 then
            none
          else
            some
              { fam.setChild c
                  { ch with
                    notice := .done
                    point :=
                      if ch.point = .notifying then .leaving else ch.point }
                with
                parentRefs := fam.parentRefs - 1
                referrers := fam.referrers.erase c }
      | .done => none

/--
The parent takes the first child of its queue, without a look at whether there
is one.  The branch for a child that is not dead ends in an assertion.
-/
def take (fam : Family) : Option Family :=
  match fam.waiters with
  | [] => some { fam with parent := .stray }
  | c :: rest =>
      match fam.children c with
      | none => none
      | some ch =>
          if ch.state = .dead then
            some
              { fam with
                waiters := rest
                parent := .taken c ch.exitcode }
          else
            none

/-- The end of `thr_thread_wait`, with `free_thread`. -/
def reap
    (fam : Family)
    (c exitcode : Nat) : Option Family :=
  match fam.children c with
  | none => none
  | some ch =>
      let fam :=
        { fam with
          parent := .outside
          returns := fam.returns ++ [.ok (c, exitcode)] }
      if ch.state = .dead then
        if ch.refs = 0 then
          some { fam with freed := fam.freed ++ [c] }
        else
          none
      else
        some fam

/-- The next section of `thr_thread_wait`. -/
def threadWait (fam : Family) : Option Family :=
  match fam.parent with
  | .outside =>
      if fam.parentRefs = 0 then
        none
      else
        some { fam with parent := .entered, parentRefs := fam.parentRefs + 1 }
  | .entered =>
      if fam.waiters = [] then
        some { fam with parent := .asleep }
      else
        fam.take
  | .asleep => none
  | .woken .delivev =>
      some
        { fam with
          parent := .outside
          parentRefs := fam.parentRefs - 1
          returns := fam.returns ++ [.error .eintr] }
  | .woken .released => fam.take
  | .woken _ => none
  | .taken c exitcode =>
      some
        { fam with
          parent := .finished c exitcode
          parentRefs := fam.parentRefs - 1 }
  | .finished c exitcode => fam.reap c exitcode
  | .stray => none

end Family

/--
The steps of a run: those of the parent, of its children, of threads that refer
to a child, and the delivery of an event to the parent.
-/
inductive FamilyAction where
  | create (c : Nat)
  | refInc (c : Nat)
  | refDec (c : Nat)
  | exit (c ec : Nat)
  | exitNext (c : Nat)
  | notify (c : Nat)
  | wait
  | deliver
deriving Repr, DecidableEq

/-- One section. -/
def familyNext (fam : Family) : FamilyAction → Option Family
  | .create c => fam.threadCreate c
  | .refInc c => fam.refInc c
  | .refDec c => fam.refDec c
  | .exit c ec => fam.threadExit c ec
  | .exitNext c => fam.exitNext c
  | .notify c => fam.notifyParentChildExit c
  | .wait => fam.threadWait
  | .deliver => some { fam with parent := fam.parent.wake .delivev }

end RiscvWorkshop.ThreadWait
