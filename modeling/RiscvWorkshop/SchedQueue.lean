import Mathlib
import RiscvWorkshop.Run
import RiscvWorkshop.KernelBase
import RiscvWorkshop.Bitops
import RiscvWorkshop.ThreadWait

namespace RiscvWorkshop.Sched

open Bitops ThreadWait

/-!
# The ready queue and the wait queues

A thread that waits links an entry to a wait queue and calls the scheduler, and
who wakes it links it to the ready queue.  The scheduler of a CPU runs with
interrupts disabled and is one step, and so is each section of the wait
functions and each turn of the loop that wakes threads.
-/

/-- `SCHED_PRIO_NR`. -/
def schedPrioNr : Nat := 256

/-- The `ra` of a thread's switch context. -/
inductive ResumePoint where
  | rv64ReturnFromTrap
  | afterThreadSwitch
deriving Repr, DecidableEq

/-- How far a thread is in a wait function, up to `sched_schedule`. -/
inductive WaitPoint where
  | outside
  | initialized
  | enqueued
  | exiting
deriving Repr, DecidableEq

/--
`thread`, with what disables dispatch in `preempt`, whether a reference to it
can still be taken, and the reason in its wait queue entry.
-/
structure Thread where
  state : ThrState
  curPrio : Nat
  resume : ResumePoint
  preempt : Nat
  referable : Bool
  point : WaitPoint
  reason : WqueReason
deriving Repr, DecidableEq

/--
`ready_queue` and `idle_threads`, the threads, those that the CPUs run, and the
wait queues with the threads of their entries.
-/
structure System where
  threads : Nat → Option Thread
  que : Nat → List Nat
  bitmap : Bitmap
  idleThreads : List Nat
  current : List Nat
  wques : Nat → List Nat

/-- A thread as `create_thread_common` makes it. -/
def newThread (prio : Nat) : Thread where
  state := .runable
  curPrio := prio
  resume := .rv64ReturnFromTrap
  preempt := 0
  referable := true
  point := .outside
  reason := .wait

/-- `sched_init`, where each CPU runs its idle thread. -/
def schedInit (idleThreads : List Nat) : System where
  threads := fun t =>
    if t ∈ idleThreads then some (newThread (schedPrioNr - 1)) else none
  que := fun _ => []
  bitmap := bitopsZero schedPrioNr
  idleThreads := idleThreads
  current := idleThreads
  wques := fun _ => []

namespace System

/-- Rewrite one thread. -/
def setThread
    (sys : System)
    (t : Nat)
    (thr : Thread) : System :=
  { sys with threads := Function.update sys.threads t (some thr) }

/-- `get_next_thread`, which stops if the thread cannot run. -/
def getNextThread (sys : System) : Option (Option Nat × System) :=
  match bitopsFfs sys.bitmap with
  | 0 => some (none, sys)
  | idx + 1 =>
      match sys.que idx with
      | [] => none
      | t :: rest =>
          match sys.threads t with
          | none => none
          | some thr =>
              if thr.state = .runable then
                some (some t,
                  { sys with
                    que := Function.update sys.que idx rest
                    bitmap :=
                      if rest = [] then bitopsClr idx sys.bitmap
                      else sys.bitmap })
              else
                none

/--
`sched_thread_add`, which stops if the thread is linked or cannot run, and
leaves a thread whose last reference is gone.
-/
def schedThreadAdd (sys : System) (t : Nat) : Option System :=
  match sys.threads t with
  | none => none
  | some thr =>
      if thr.referable = false then
        some sys
      else if t ∈ sys.que thr.curPrio ∨ thr.state ≠ .runable then
        none
      else
        some
          { sys with
            que := Function.update sys.que thr.curPrio
              (sys.que thr.curPrio ++ [t])
            bitmap :=
              if sys.que thr.curPrio = [] then bitopsSet thr.curPrio sys.bitmap
              else sys.bitmap }

/-- Taking the next thread off its queue changes the ready queue alone. -/
theorem getNextThread_frame
    {sys after : System}
    {picked : Option Nat}
    (got : sys.getNextThread = some (picked, after)) :
    after.threads = sys.threads ∧ after.current = sys.current ∧
      after.wques = sys.wques := by
  rw [getNextThread] at got
  split at got
  · cases got
    exact ⟨rfl, rfl, rfl⟩
  · split at got
    · cases got
    · split at got
      · cases got
      · split at got <;> cases got
        exact ⟨rfl, rfl, rfl⟩

/-- Adding a thread to its queue changes the ready queue alone. -/
theorem schedThreadAdd_frame
    {sys after : System}
    {t : Nat}
    (added : sys.schedThreadAdd t = some after) :
    after.threads = sys.threads ∧ after.current = sys.current ∧
      after.wques = sys.wques := by
  rw [schedThreadAdd] at added
  split at added
  · cases added
  · split at added
    · cases added
      exact ⟨rfl, rfl, rfl⟩
    · split at added <;> cases added
      exact ⟨rfl, rfl, rfl⟩

/-- The end of `sched_schedule` in the thread that called it. -/
def returned (sys : System) (t : Nat) : System :=
  match sys.threads t with
  | none => sys
  | some thr => sys.setThread t { thr with point := .outside }

/--
`thr_thread_switch`, and what the next thread does first: a thread that was
switched away returns from it and sets its state, a new one does not.
-/
def threadSwitch
    (sys : System)
    (cpu prev next : Nat) : Option System :=
  match sys.threads prev, sys.threads next with
  | some prevThr, some nextThr =>
      let sys :=
        { sys with current := sys.current.set cpu next }.setThread prev
          { prevThr with resume := .afterThreadSwitch }
      match nextThr.resume with
      | .rv64ReturnFromTrap => some sys
      | .afterThreadSwitch =>
          some (sys.setThread next
            { nextThr with state := .run, point := .outside })
  | _, _ => none

/-- `sched_schedule` of a CPU. -/
def schedSchedule (sys : System) (cpu : Nat) : Option System :=
  match sys.current[cpu]?, sys.idleThreads[cpu]? with
  | some prev, some idle =>
      match sys.threads prev with
      | none => none
      | some prevThr =>
          if prevThr.point = .initialized then
            none
          else if prevThr.preempt ≠ 0 then
            some (sys.returned prev)
          else
            match sys.getNextThread with
            | none => none
            | some (picked, sys) =>
                let next := picked.getD idle
                if prev = next then
                  some (sys.returned prev)
                else if prevThr.state = .run then
                  match (sys.setThread prev
                      { prevThr with state := .runable }).schedThreadAdd prev with
                  | none => none
                  | some sys => sys.threadSwitch cpu prev next
                else
                  sys.threadSwitch cpu prev next
  | _, _ => none

/-- The thread that a CPU runs does something to its own record. -/
def atCurrent
    (sys : System)
    (cpu : Nat)
    (change : Thread → Option Thread) : Option System :=
  match sys.current[cpu]? with
  | none => none
  | some t =>
      match sys.threads t with
      | none => none
      | some thr => (change thr).map (sys.setThread t)

/-- The thread that a CPU runs calls a function that an idle thread does not. -/
def fromOutside
    (sys : System)
    (cpu : Nat)
    (change : Thread → Thread) : Option System :=
  match sys.current[cpu]? with
  | none => none
  | some t =>
      if t ∈ sys.idleThreads then
        none
      else
        sys.atCurrent cpu fun thr =>
          if thr.point = .outside then some (change thr) else none

/-- `init_wque_entry_nolock`. -/
def initWqueEntry (sys : System) (cpu : Nat) : Option System :=
  sys.fromOutside cpu fun thr =>
    { thr with state := .wait, point := .initialized, reason := .wait }

/-- `enque_wque_entry`. -/
def enqueWqueEntry (sys : System) (cpu wq : Nat) : Option System :=
  match sys.current[cpu]? with
  | none => none
  | some t =>
      let linked :=
        { sys with
          wques := Function.update sys.wques wq (sys.wques wq ++ [t]) }
      linked.atCurrent cpu fun thr =>
        if thr.point = .initialized then
          some { thr with point := .enqueued, reason := .wait }
        else
          none

/-- One turn of the loop of `wque_wakeup`. -/
def wqueWakeup
    (sys : System)
    (wq : Nat)
    (reason : WqueReason) : Option System :=
  match sys.wques wq with
  | [] => some sys
  | t :: rest =>
      let sys := { sys with wques := Function.update sys.wques wq rest }
      match sys.threads t with
      | none => none
      | some thr =>
          if thr.referable then
            (sys.setThread t { thr with state := .runable, reason }).schedThreadAdd t
          else
            some (sys.setThread t { thr with reason })

/-- `thr_thread_create`, and `sched_thread_add` by who made the thread. -/
def threadStart (sys : System) (t prio : Nat) : Option System :=
  if prio < schedPrioNr ∧ sys.threads t = none then
    (sys.setThread t (newThread prio)).schedThreadAdd t
  else
    none

/--
`thr_thread_exit` up to `sched_schedule`, where the references to the thread
are gone if the last one was its own.
-/
def threadExit (sys : System) (cpu : Nat) (last : Bool) : Option System :=
  sys.fromOutside cpu fun thr =>
    { thr with
      state := if last then .dead else .exit
      referable := !last
      point := .exiting }

/-- `ti_inc_preempt` and `ti_inc_intr`. -/
def incPreempt (sys : System) (cpu : Nat) : Option System :=
  sys.atCurrent cpu fun thr => some { thr with preempt := thr.preempt + 1 }

/-- `ti_dec_preempt` and `ti_dec_intr`. -/
def decPreempt (sys : System) (cpu : Nat) : Option System :=
  sys.atCurrent cpu fun thr =>
    match thr.preempt with
    | 0 => none
    | preempt + 1 => some { thr with preempt }

end System

/-- What the CPUs do to the threads that they run, and to the queues. -/
inductive SchedAction where
  | initWqueEntry (cpu : Nat)
  | enqueWqueEntry (cpu wq : Nat)
  | schedSchedule (cpu : Nat)
  | wqueWakeup (wq : Nat) (reason : WqueReason)
  | threadStart (t prio : Nat)
  | threadExit (cpu : Nat) (last : Bool)
  | incPreempt (cpu : Nat)
  | decPreempt (cpu : Nat)
deriving Repr, DecidableEq

/-- One step. -/
def schedNext (sys : System) : SchedAction → Option System
  | .initWqueEntry cpu => sys.initWqueEntry cpu
  | .enqueWqueEntry cpu wq => sys.enqueWqueEntry cpu wq
  | .schedSchedule cpu => sys.schedSchedule cpu
  | .wqueWakeup wq reason => sys.wqueWakeup wq reason
  | .threadStart t prio => sys.threadStart t prio
  | .threadExit cpu last => sys.threadExit cpu last
  | .incPreempt cpu => sys.incPreempt cpu
  | .decPreempt cpu => sys.decPreempt cpu

end RiscvWorkshop.Sched
