import Mathlib
import RiscvWorkshop.Run
import RiscvWorkshop.SpinLock
import RiscvWorkshop.SchedQueue
import RiscvWorkshop.ReadyQueue
import RiscvWorkshop.SchedRuns

namespace RiscvWorkshop.Sched

open SpinLock ThreadWait

/-!
# Waiting on a queue and waking up

A thread that waits has an entry on its own stack.  The entry gets its thread
from a function that first takes the lock of whatever thread the entry names,
so that what is locked depends on what was on the stack.  Who wakes the queue
tells each entry why before its thread can run.
-/

/-- `wque_wakeflag`. -/
inductive WqueWakeflag where
  | all
  | one
deriving Repr, DecidableEq

/-! ## The wait functions up to the wait queue -/

/-- `wque_entry`, without its link. -/
structure WqueEntry where
  thr : Nat
  reason : WqueReason
deriving Repr, DecidableEq

/-- The locks that the wait functions take. -/
inductive WaitLock where
  | thread (t : Nat)
  | wque
deriving Repr, DecidableEq

/-- A CPU that runs a wait function, the threads, and the entry on its stack. -/
structure WaitState where
  cpu : Cpu WaitLock
  sys : System
  ent : WqueEntry

/-- A wait function; `none` when it never returns. -/
abbrev Waiting := StateT WaitState Option

/-- An operation on the locks. -/
def onLocks {Result : Type} (operation : OnCpu WaitLock Result) :
    Waiting Result :=
  fun st =>
    (operation st.cpu).map fun done => (done.1, { st with cpu := done.2 })

/-- `init_wque_entry_nolock`, whose own reference must not be the last. -/
def initWqueEntryNolock (cur : Nat) : Waiting Unit :=
  fun st =>
    match st.sys.threads cur with
    | none => none
    | some thr =>
        if thr.referable then
          some ((),
            { st with
              sys := st.sys.setThread cur
                { thr with state := .wait, point := .initialized }
              ent := ⟨cur, .wait⟩ })
        else
          none

/-- `wque_init_wque_entry`: the lock is that of the thread in the entry. -/
def wqueInitWqueEntry (cur : Nat) : Waiting Unit := do
  let locked ← get
  let iflags ← onLocks (spinlockLockDisableIntr (.thread locked.ent.thr))
  initWqueEntryNolock cur
  let unlocked ← get
  onLocks (spinlockUnlockRestoreIntr (.thread unlocked.ent.thr) iflags)

/-- `enque_wque_entry`. -/
def enqueWqueEntry (wq : Nat) : Waiting Unit := do
  let iflags ← onLocks (spinlockLockDisableIntr .wque)
  modify fun st =>
    { st with
      ent := { st.ent with reason := .wait }
      sys :=
        { st.sys with
          wques := Function.update st.sys.wques wq
            (st.sys.wques wq ++ [st.ent.thr]) } }
  onLocks (spinlockUnlockRestoreIntr .wque iflags)

/-- The functions that wait on a queue. -/
inductive WaitFunction where
  | waitForCurthr
  | waitOnQueueWithSpinlock
  | waitOnEventWithMutex
deriving Repr, DecidableEq

/-- `wque_wait_for_curthr` up to the wait queue. -/
def wqueWaitForCurthr (cur wq : Nat) : Waiting Unit := do
  onLocks (do kassert (← spinlockLockedBySelf (.thread cur)))
  initWqueEntryNolock cur
  enqueWqueEntry wq

/-- `wque_wait_on_queue_with_spinlock` up to the wait queue. -/
def wqueWaitOnQueueWithSpinlock (cur wq : Nat) : Waiting Unit := do
  wqueInitWqueEntry cur
  enqueWqueEntry wq

/-- `wque_wait_on_event_with_mutex` up to the wait queue. -/
def wqueWaitOnEventWithMutex (cur wq : Nat) : Waiting Unit := do
  wqueInitWqueEntry cur
  enqueWqueEntry wq

namespace WaitFunction

/-- What a wait function does up to the wait queue. -/
def untilQueued
    (function : WaitFunction)
    (cur wq : Nat) : Waiting Unit :=
  match function with
  | .waitForCurthr => wqueWaitForCurthr cur wq
  | .waitOnQueueWithSpinlock => wqueWaitOnQueueWithSpinlock cur wq
  | .waitOnEventWithMutex => wqueWaitOnEventWithMutex cur wq

/--
A thread that can be referred to calls the function, with its own lock for the
one that says so and without it for the others.
-/
structure Called
    (function : WaitFunction)
    (cur : Nat)
    (st : WaitState) : Prop where
  found : ∃ thr, st.sys.threads cur = some thr ∧ thr.referable = true
  own : .thread cur ∈ st.cpu.held ↔ function = .waitForCurthr
  free : .wque ∉ st.cpu.held

/--
The function gets to the wait queue, where its entry is the last one, and has
locked and changed no thread but the one that calls it.
-/
def WaitsAlone
    (function : WaitFunction)
    (cur wq : Nat)
    (st : WaitState) : Prop :=
  ∃ after taken,
    function.untilQueued cur wq st = some ((), after) ∧
      after.ent = ⟨cur, .wait⟩ ∧
      after.sys.wques wq = st.sys.wques wq ++ [cur] ∧
      (∀ t, t ≠ cur → after.sys.threads t = st.sys.threads t) ∧
      after.cpu.taken = st.cpu.taken ++ taken ∧
      ∀ event ∈ taken, ∀ t, event.1 = .thread t → t = cur

end WaitFunction

/-! ## Waking up -/

namespace System

/--
The loop of `wque_wakeup`.  A thread whose last reference is gone does not end
the loop.
-/
def wakeupLoop
    (wq : Nat)
    (wqflag : WqueWakeflag)
    (reason : WqueReason) : Nat → System → Option System
  | 0, _ => none
  | rounds + 1, sys =>
      match sys.wques wq with
      | [] => some sys
      | t :: _ =>
          match sys.wqueWakeup wq reason with
          | none => none
          | some after =>
              if (sys.threads t).any (·.referable) ∧ wqflag = .one then
                some after
              else
                wakeupLoop wq wqflag reason rounds after

/-- A thread that is not being destroyed. -/
def live (sys : System) (t : Nat) : Bool :=
  (sys.threads t).any (·.referable)

/--
The threads of a wait queue wait, each with one entry, and are not on the ready
queue.
-/
structure LiveWaiters (sys : System) (wq : Nat) : Prop where
  waits : ∀ t ∈ sys.wques wq, ∃ thr,
    sys.threads t = some thr ∧ thr.state = .wait ∧ thr.point = .enqueued
  once : (sys.wques wq).Nodup
  alone : ∀ t ∈ sys.wques wq, ∀ other, t ∈ sys.wques other → other = wq
  unlinked : ∀ t ∈ sys.wques wq, ∀ prio, t ∉ sys.que prio

end System

/-- The threads that a flag wakes: all that live, or the first of them. -/
def WqueWakeflag.woken
    (wqflag : WqueWakeflag)
    (live : Nat → Bool)
    (waiters : List Nat) : List Nat :=
  match wqflag with
  | .all => waiters.filter live
  | .one => (waiters.filter live).take 1

/-- The threads that go on waiting: none, or those behind the first that lives. -/
def WqueWakeflag.left
    (wqflag : WqueWakeflag)
    (live : Nat → Bool)
    (waiters : List Nat) : List Nat :=
  match wqflag with
  | .all => []
  | .one => (waiters.dropWhile fun t => !live t).tail

/-- The thread has not returned from its wait. -/
def StillWaits (t : Nat) (sys : System) (_ : SchedAction) : Prop :=
  ∃ thr, sys.threads t = some thr ∧ thr.point = .enqueued

/--
The threads that the flag names, and no others, can run, in the order in which
they waited, and see the reason when they return from their waits.
-/
structure Woke
    (sys : System)
    (wq : Nat)
    (wqflag : WqueWakeflag)
    (reason : WqueReason)
    (after : System) : Prop where
  woken : ∀ t ∈ wqflag.woken sys.live (sys.wques wq), ∃ thr,
    sys.threads t = some thr ∧
      after.threads t = some { thr with state := .runable, reason }
  others : ∀ t, t ∉ wqflag.woken sys.live (sys.wques wq) →
    (after.threads t).map (·.state) = (sys.threads t).map (·.state)
  ready : ∀ prio, after.que prio =
    sys.que prio ++ (wqflag.woken sys.live (sys.wques wq)).filter
      fun t => sys.curPrio t = some prio
  waiting : after.wques =
    Function.update sys.wques wq (wqflag.left sys.live (sys.wques wq))
  seen : ∀ t ∈ wqflag.woken sys.live (sys.wques wq),
    ∀ actions final,
      Run (Guarded (StillWaits t) (StepOf schedNext)) after actions final →
      ∃ thr, final.threads t = some thr ∧ thr.reason = reason

/-- The loop ends, with the right threads woken. -/
def WakesRight
    (sys : System)
    (wq : Nat)
    (wqflag : WqueWakeflag)
    (reason : WqueReason) : Prop :=
  ∃ rounds after,
    sys.wakeupLoop wq wqflag reason rounds = some after ∧
      Woke sys wq wqflag reason after

/-! ## What the wait functions lock and change -/

section Waits

variable {st after : WaitState}
variable {cur wq : Nat}
variable {thr : Thread}

/-- The calling thread is put into the entry and set to wait. -/
theorem initWqueEntryNolock_eq
    (found : st.sys.threads cur = some thr)
    (referable : thr.referable = true) :
    initWqueEntryNolock cur st =
      some ((),
        { st with
          sys := st.sys.setThread cur
            { thr with state := .wait, point := .initialized }
          ent := ⟨cur, .wait⟩ }) := by
  simp only [initWqueEntryNolock, found, referable, if_true]

/-- The entry is queued under the lock of the wait queue. -/
theorem enqueWqueEntry_eq
    (wq : Nat)
    (free : .wque ∉ st.cpu.held) :
    enqueWqueEntry wq st =
      some ((),
        { cpu :=
            { sie := false || st.cpu.sie
              held := st.cpu.held
              taken := st.cpu.taken ++ [(.wque, st.cpu.held)] }
          ent := { st.ent with reason := .wait }
          sys :=
            { st.sys with
              wques := Function.update st.sys.wques wq
                (st.sys.wques wq ++ [st.ent.thr]) } }) := by
  simp [enqueWqueEntry, onLocks, spinlockLockDisableIntr, free,
    krnCpuSaveAndDisableInterrupt, spinlockLock, spinlockUnlockRestoreIntr,
    spinlockUnlock, krnCpuRestoreInterrupt, bind, StateT.bind, pure, StateT.pure,
    modify, modifyGet, MonadStateOf.modifyGet, StateT.modifyGet]

/-- With another thread in the entry, a lock is given back that is not held. -/
theorem wqueInitWqueEntry_none
    (found : st.sys.threads cur = some thr)
    (referable : thr.referable = true)
    (own : .thread cur ∉ st.cpu.held)
    (different : st.ent.thr ≠ cur) :
    wqueInitWqueEntry cur st = none := by
  by_cases held : .thread st.ent.thr ∈ st.cpu.held
  · simp [wqueInitWqueEntry, onLocks, spinlockLockDisableIntr, held,
      krnCpuSaveAndDisableInterrupt, spinlockLock, bind, StateT.bind, pure,
      StateT.pure, get, getThe, MonadStateOf.get, StateT.get]
  · simp [wqueInitWqueEntry, onLocks, spinlockLockDisableIntr, held,
      krnCpuSaveAndDisableInterrupt, spinlockLock, initWqueEntryNolock, found,
      referable, spinlockUnlockRestoreIntr, spinlockUnlock, own,
      different.symm, bind, StateT.bind, pure, StateT.pure, get, getThe,
      MonadStateOf.get, StateT.get]

/-- With the calling thread in the entry, its lock is taken and given back. -/
theorem wqueInitWqueEntry_eq
    (found : st.sys.threads cur = some thr)
    (referable : thr.referable = true)
    (own : .thread cur ∉ st.cpu.held)
    (same : st.ent.thr = cur) :
    wqueInitWqueEntry cur st =
      some ((),
        { cpu :=
            { sie := false || st.cpu.sie
              held := st.cpu.held
              taken := st.cpu.taken ++ [(.thread cur, st.cpu.held)] }
          ent := ⟨cur, .wait⟩
          sys := st.sys.setThread cur
            { thr with state := .wait, point := .initialized } }) := by
  simp [wqueInitWqueEntry, onLocks, spinlockLockDisableIntr, own, same,
    krnCpuSaveAndDisableInterrupt, spinlockLock, initWqueEntryNolock, found,
    referable, spinlockUnlockRestoreIntr, spinlockUnlock,
    krnCpuRestoreInterrupt, bind, StateT.bind, pure, StateT.pure, get, getThe,
    MonadStateOf.get, StateT.get]

/-- A function gets to the wait queue alone from where its entry is its own. -/
theorem waitsAlone_of_initialized
    {function : WaitFunction}
    {middle : WaitState}
    {taken : List (WaitLock × List WaitLock)}
    (untilQueued : function.untilQueued cur wq st = enqueWqueEntry wq middle)
    (sys : middle.sys = st.sys.setThread cur
      { thr with state := .wait, point := .initialized })
    (ent : middle.ent = ⟨cur, .wait⟩)
    (held : middle.cpu.held = st.cpu.held)
    (free : .wque ∉ st.cpu.held)
    (more : middle.cpu.taken = st.cpu.taken ++ taken)
    (own : ∀ event ∈ taken, ∀ t, event.1 = .thread t → t = cur) :
    function.WaitsAlone cur wq st := by
  have queued := enqueWqueEntry_eq wq (held.symm ▸ free)
  refine ⟨_, taken ++ [(.wque, middle.cpu.held)], untilQueued.trans queued, ?_,
    ?_, ?_, ?_, ?_⟩
  · rw [ent]
  · simp [sys, ent, System.setThread]
  · intro t different
    simp [sys, System.setThread, different]
  · simp [more]
  · intro event member t isThread
    rcases List.mem_append.mp member with earlier | last
    · exact own event earlier t isThread
    · rw [List.mem_singleton.mp last] at isThread
      cases isThread

/-- A function that initializes its entry needs the thread to be in it. -/
theorem waitsAlone_iff_of_entry
    {function : WaitFunction}
    (initializes :
      function.untilQueued cur wq = do
        wqueInitWqueEntry cur
        enqueWqueEntry wq)
    (found : st.sys.threads cur = some thr)
    (referable : thr.referable = true)
    (own : .thread cur ∉ st.cpu.held)
    (free : .wque ∉ st.cpu.held) :
    function.WaitsAlone cur wq st ↔ st.ent.thr = cur := by
  have first : function.untilQueued cur wq st =
      (wqueInitWqueEntry cur st).bind fun done =>
        enqueWqueEntry wq done.2 := by
    rw [initializes]
    rfl
  constructor
  · rintro ⟨after, taken, queued, -⟩
    by_contra different
    rw [first, wqueInitWqueEntry_none found referable own different] at queued
    cases queued
  · intro same
    rw [wqueInitWqueEntry_eq found referable own same] at first
    refine waitsAlone_of_initialized first rfl rfl rfl free rfl ?_
    intro event member t isThread
    rw [List.mem_singleton.mp member] at isThread
    cases isThread
    rfl

/-- A call waits alone exactly when it needs no entry, or has its own. -/
theorem waitsAlone_iff
    {function : WaitFunction}
    (called : function.Called cur st) :
    function.WaitsAlone cur wq st ↔
      function = .waitForCurthr ∨ st.ent.thr = cur := by
  obtain ⟨⟨thr, found, referable⟩, own, free⟩ := called
  cases function with
  | waitForCurthr =>
      refine iff_of_true ?_ (.inl rfl)
      have held : .thread cur ∈ st.cpu.held :=
        own.mpr rfl
      have untilQueued :
          WaitFunction.waitForCurthr.untilQueued cur wq st =
            enqueWqueEntry wq
              { st with
                sys := st.sys.setThread cur
                  { thr with state := .wait, point := .initialized }
                ent := ⟨cur, .wait⟩ } := by
        simp [WaitFunction.untilQueued, wqueWaitForCurthr, onLocks,
          spinlockLockedBySelf, kassert, orStop, held,
          initWqueEntryNolock_eq found referable, bind, StateT.bind]
      exact waitsAlone_of_initialized untilQueued rfl rfl rfl free
        (List.append_nil _).symm nofun
  | waitOnQueueWithSpinlock =>
      have notHeld : .thread cur ∉ st.cpu.held :=
        own.not.mpr nofun
      rw [waitsAlone_iff_of_entry rfl found referable notHeld free]
      exact (or_iff_right nofun).symm
  | waitOnEventWithMutex =>
      have notHeld : .thread cur ∉ st.cpu.held :=
        own.not.mpr nofun
      rw [waitsAlone_iff_of_entry rfl found referable notHeld free]
      exact (or_iff_right nofun).symm

end Waits

/-! ## Who is woken -/

section Wakes

variable {sys after : System}
variable {wq t : Nat}
variable {thr : Thread}
variable {rest : List Nat}
variable {wqflag : WqueWakeflag}
variable {reason : WqueReason}

/-- A turn that finds a live thread makes it runnable. -/
theorem wqueWakeup_live
    (reason : WqueReason)
    (queue : sys.wques wq = t :: rest)
    (found : sys.threads t = some thr)
    (referable : thr.referable = true)
    (unlinked : t ∉ sys.que thr.curPrio) :
    ∃ after,
      sys.wqueWakeup wq reason = some after ∧
        after.threads = Function.update sys.threads t
          (some { thr with state := .runable, reason }) ∧
        after.que = Function.update sys.que thr.curPrio
          (sys.que thr.curPrio ++ [t]) ∧
        after.wques = Function.update sys.wques wq rest := by
  simp [System.wqueWakeup, queue, found, referable, System.setThread,
    System.schedThreadAdd, unlinked]

/-- A turn that finds a thread that is being destroyed leaves it alone. -/
theorem wqueWakeup_dead
    (reason : WqueReason)
    (queue : sys.wques wq = t :: rest)
    (found : sys.threads t = some thr)
    (referable : thr.referable = false) :
    ∃ after,
      sys.wqueWakeup wq reason = some after ∧
        after.threads = Function.update sys.threads t
          (some { thr with reason }) ∧
        after.que = sys.que ∧
        after.wques = Function.update sys.wques wq rest := by
  simp [System.wqueWakeup, queue, found, referable, System.setThread]

/-- What the loop has done to the threads and the queues when it ends. -/
structure WokeNow
    (sys : System)
    (wq : Nat)
    (wqflag : WqueWakeflag)
    (reason : WqueReason)
    (waiters : List Nat)
    (after : System) : Prop where
  woken : ∀ t ∈ wqflag.woken sys.live waiters, ∃ thr,
    sys.threads t = some thr ∧
      after.threads t = some { thr with state := .runable, reason }
  others : ∀ t, t ∉ wqflag.woken sys.live waiters →
    (after.threads t).map (·.state) = (sys.threads t).map (·.state)
  untouched : ∀ t, t ∉ waiters → after.threads t = sys.threads t
  ready : ∀ prio, after.que prio =
    sys.que prio ++ (wqflag.woken sys.live waiters).filter
      fun t => sys.curPrio t = some prio
  waiting : after.wques =
    Function.update sys.wques wq (wqflag.left sys.live waiters)

/-- A change of the state and the reason of a thread keeps the rest of it. -/
theorem live_update
    {changed : Thread}
    (found : sys.threads t = some thr)
    (threads : after.threads = Function.update sys.threads t (some changed))
    (referable : changed.referable = thr.referable)
    (prio : changed.curPrio = thr.curPrio) :
    after.live = sys.live ∧ after.curPrio = sys.curPrio := by
  constructor <;> funext other <;> by_cases same : other = t
  · simp [System.live, threads, same, found, referable]
  · simp [System.live, threads, same]
  · simp [System.curPrio, threads, same, found, prio]
  · simp [System.curPrio, threads, same]

/-- The threads behind the first one of a queue go on waiting. -/
theorem System.LiveWaiters.tail
    {changed : Thread}
    (waiters : sys.LiveWaiters wq)
    (queue : sys.wques wq = t :: rest)
    (threads : after.threads = Function.update sys.threads t (some changed))
    (wques : after.wques = Function.update sys.wques wq rest)
    (que : ∀ prio other, other ≠ t → other ∈ after.que prio →
      other ∈ sys.que prio) :
    after.LiveWaiters wq := by
  have once := waiters.once
  rw [queue, List.nodup_cons] at once
  have here : after.wques wq = rest := by
    rw [wques, Function.update_self]
  have before : ∀ other ∈ rest, other ∈ sys.wques wq ∧ other ≠ t := by
    intro other member
    refine ⟨queue ▸ List.mem_cons_of_mem t member, ?_⟩
    rintro rfl
    exact once.1 member
  constructor
  · intro other member
    obtain ⟨waited, different⟩ := before other (here ▸ member)
    rw [threads, Function.update_of_ne different]
    exact waiters.waits other waited
  · rw [here]
    exact once.2
  · intro other member elsewhere inQueue
    by_contra notHere
    rw [wques, Function.update_of_ne notHere] at inQueue
    obtain ⟨waited, -⟩ := before other (here ▸ member)
    exact notHere (waiters.alone other waited elsewhere inQueue)
  · intro other member prio linked
    obtain ⟨waited, different⟩ := before other (here ▸ member)
    exact waiters.unlinked other waited prio (que prio other different linked)

/-- The threads that are woken are among those that wait. -/
theorem woken_subset
    (live : Nat → Bool)
    (waiters : List Nat) :
    ∀ t ∈ wqflag.woken live waiters, t ∈ waiters := by
  intro t member
  cases wqflag with
  | all => exact (List.mem_filter.mp member).1
  | one => exact (List.mem_filter.mp (List.mem_of_mem_take member)).1

/-- The first thread is being destroyed: the loop goes on as if it were not. -/
theorem WokeNow.dead
    {middle : System}
    (woke : WokeNow middle wq wqflag reason rest after)
    (found : sys.threads t = some thr)
    (referable : thr.referable = false)
    (notBehind : t ∉ rest)
    (threads : middle.threads = Function.update sys.threads t
      (some { thr with reason }))
    (que : middle.que = sys.que)
    (wques : middle.wques = Function.update sys.wques wq rest) :
    WokeNow sys wq wqflag reason (t :: rest) after := by
  obtain ⟨sameLive, samePrio⟩ := live_update found threads rfl rfl
  have dead : sys.live t = false := by
    rw [System.live, found]
    exact referable
  have sameWoken :
      wqflag.woken sys.live (t :: rest) = wqflag.woken middle.live rest := by
    cases wqflag <;> simp [WqueWakeflag.woken, sameLive, dead]
  constructor
  · intro other member
    rw [sameWoken] at member
    obtain ⟨otherThr, otherFound, woken⟩ := woke.woken other member
    have different : other ≠ t := by
      rintro rfl
      exact notBehind (woken_subset middle.live rest other member)
    rw [threads, Function.update_of_ne different] at otherFound
    exact ⟨otherThr, otherFound, woken⟩
  · intro other outside
    rw [sameWoken] at outside
    rw [woke.others other outside, threads]
    by_cases same : other = t
    · simp [same, found]
    · rw [Function.update_of_ne same]
  · intro other outside
    rw [List.mem_cons, not_or] at outside
    rw [woke.untouched other outside.2, threads,
      Function.update_of_ne outside.1]
  · intro prio
    rw [woke.ready, sameWoken, que, samePrio]
  · rw [woke.waiting, wques, Function.update_idem]
    cases wqflag <;> simp [WqueWakeflag.left, sameLive, dead]

/-- A thread that is woken does not go on waiting. -/
theorem woken_not_left
    {live : Nat → Bool}
    {waiters : List Nat}
    (once : waiters.Nodup)
    (member : t ∈ wqflag.woken live waiters) :
    t ∉ wqflag.left live waiters := by
  cases wqflag with
  | all => exact nofun
  | one =>
      induction waiters with
      | nil => cases member
      | cons first rest inductionHypothesis =>
          obtain ⟨notBehind, restOnce⟩ := List.nodup_cons.mp once
          by_cases alive : live first = true
          · simp [WqueWakeflag.woken, alive] at member
            simp [WqueWakeflag.left, alive, member, notBehind]
          · simp [WqueWakeflag.woken, alive] at member inductionHypothesis
            simp [WqueWakeflag.left, alive] at inductionHypothesis ⊢
            exact inductionHypothesis restOnce member

/-- The only thread that is to be woken is woken. -/
theorem WokeNow.one
    (found : sys.threads t = some thr)
    (referable : thr.referable = true)
    (threads : after.threads = Function.update sys.threads t
      (some { thr with state := .runable, reason }))
    (que : after.que = Function.update sys.que thr.curPrio
      (sys.que thr.curPrio ++ [t]))
    (wques : after.wques = Function.update sys.wques wq rest) :
    WokeNow sys wq .one reason (t :: rest) after := by
  have live : sys.live t = true := by
    rw [System.live, found]
    exact referable
  have woken : WqueWakeflag.one.woken sys.live (t :: rest) = [t] := by
    simp [WqueWakeflag.woken, live]
  have left : WqueWakeflag.one.left sys.live (t :: rest) = rest := by
    simp [WqueWakeflag.left, live]
  constructor
  · intro other member
    rw [woken, List.mem_singleton] at member
    subst member
    exact ⟨thr, found, by rw [threads, Function.update_self]⟩
  · intro other outside
    rw [woken, List.mem_singleton] at outside
    rw [threads, Function.update_of_ne outside]
  · intro other outside
    rw [List.mem_cons, not_or] at outside
    rw [threads, Function.update_of_ne outside.1]
  · intro prio
    rw [woken, que]
    by_cases same : prio = thr.curPrio
    · subst same
      simp [System.curPrio, found]
    · have different : thr.curPrio ≠ prio :=
        fun eq => same eq.symm
      simp [System.curPrio, found, same, different]
  · rw [left, wques]

/-- The first of all threads is woken, then the others are. -/
theorem WokeNow.all
    {middle : System}
    (woke : WokeNow middle wq .all reason rest after)
    (found : sys.threads t = some thr)
    (referable : thr.referable = true)
    (notBehind : t ∉ rest)
    (threads : middle.threads = Function.update sys.threads t
      (some { thr with state := .runable, reason }))
    (que : middle.que = Function.update sys.que thr.curPrio
      (sys.que thr.curPrio ++ [t]))
    (wques : middle.wques = Function.update sys.wques wq rest) :
    WokeNow sys wq .all reason (t :: rest) after := by
  obtain ⟨sameLive, samePrio⟩ := live_update found threads rfl rfl
  have live : sys.live t = true := by
    rw [System.live, found]
    exact referable
  have woken : WqueWakeflag.all.woken sys.live (t :: rest) =
      t :: WqueWakeflag.all.woken middle.live rest := by
    simp [WqueWakeflag.woken, sameLive, live]
  constructor
  · intro other member
    rw [woken] at member
    rcases List.mem_cons.mp member with rfl | later
    · refine ⟨thr, found, ?_⟩
      rw [woke.untouched other notBehind, threads, Function.update_self]
    · obtain ⟨otherThr, otherFound, isWoken⟩ := woke.woken other later
      have different : other ≠ t := by
        rintro rfl
        exact notBehind (woken_subset middle.live rest other later)
      rw [threads, Function.update_of_ne different] at otherFound
      exact ⟨otherThr, otherFound, isWoken⟩
  · intro other outside
    rw [woken, List.mem_cons, not_or] at outside
    rw [woke.others other outside.2, threads,
      Function.update_of_ne outside.1]
  · intro other outside
    rw [List.mem_cons, not_or] at outside
    rw [woke.untouched other outside.2, threads,
      Function.update_of_ne outside.1]
  · intro prio
    rw [woke.ready, woken, que, samePrio]
    by_cases same : prio = thr.curPrio
    · subst same
      simp [System.curPrio, found]
    · have different : thr.curPrio ≠ prio :=
        fun eq => same eq.symm
      simp [System.curPrio, found, same, different]
  · rw [woke.waiting, wques, Function.update_idem]
    rfl

/-- The loop ends, and has woken who was to be woken. -/
theorem wakeupLoop_wokeNow
    (wqflag : WqueWakeflag)
    (reason : WqueReason)
    (waiters : sys.LiveWaiters wq)
    {queue : List Nat}
    (isQueue : sys.wques wq = queue) :
    ∃ after,
      sys.wakeupLoop wq wqflag reason (queue.length + 1) = some after ∧
        WokeNow sys wq wqflag reason queue after := by
  induction queue generalizing sys with
  | nil =>
      refine ⟨sys, by simp [System.wakeupLoop, isQueue], ?_⟩
      have none : wqflag.woken sys.live [] = [] := by
        cases wqflag <;> rfl
      have left : wqflag.left sys.live [] = sys.wques wq := by
        rw [isQueue]
        cases wqflag <;> rfl
      constructor
      · rw [none]
        exact nofun
      · exact fun _ _ => rfl
      · exact fun _ _ => rfl
      · intro prio
        rw [none, List.filter_nil, List.append_nil]
      · rw [left, Function.update_eq_self]
  | cons t rest inductionHypothesis =>
      have isWaiter : t ∈ sys.wques wq :=
        isQueue ▸ List.mem_cons_self
      obtain ⟨thr, found, -, -⟩ := waiters.waits t isWaiter
      have once := waiters.once
      rw [isQueue, List.nodup_cons] at once
      rw [List.length_cons, System.wakeupLoop, isQueue]
      simp only [found, Option.any_some]
      cases referable : thr.referable with
      | false =>
          obtain ⟨middle, turned, threads, que, wques⟩ :=
            wqueWakeup_dead reason isQueue found referable
          have tail := waiters.tail isQueue threads wques fun _ _ _ linked =>
            que ▸ linked
          have here : middle.wques wq = rest := by
            rw [wques, Function.update_self]
          obtain ⟨after, ended, woke⟩ := inductionHypothesis tail here
          refine ⟨after, ?_,
            woke.dead found referable once.1 threads que wques⟩
          rw [turned]
          exact ended
      | true =>
          obtain ⟨middle, turned, threads, que, wques⟩ :=
            wqueWakeup_live reason isQueue found referable
              (waiters.unlinked t isWaiter thr.curPrio)
          rw [turned]
          cases wqflag with
          | one =>
              exact ⟨middle, rfl, .one found referable threads que wques⟩
          | all =>
              have tail := waiters.tail isQueue threads wques (by
                intro prio other different linked
                rw [que] at linked
                by_cases same : prio = thr.curPrio
                · subst same
                  simpa [different] using linked
                · rwa [Function.update_of_ne same] at linked)
              have here : middle.wques wq = rest := by
                rw [wques, Function.update_self]
              obtain ⟨after, ended, woke⟩ := inductionHypothesis tail here
              refine ⟨after, ?_,
                woke.all found referable once.1 threads que wques⟩
              exact ended

end Wakes

/-! ## What a thread that was woken sees -/

section Seen

variable {sys after : System}
variable {t other : Nat}
variable {reason : WqueReason}

/-- A thread waits on no queue any more, and its entry has a reason. -/
structure Told
    (t : Nat)
    (reason : WqueReason)
    (sys : System) : Prop where
  off : ∀ wq, t ∉ sys.wques wq
  tells : ∃ thr, sys.threads t = some thr ∧ thr.reason = reason

/-- The reason in the entry of the thread. -/
theorem Told.reason_eq
    {thr : Thread}
    (told : Told t reason sys)
    (found : sys.threads t = some thr) :
    thr.reason = reason := by
  obtain ⟨own, ownFound, tells⟩ := told.tells
  rw [found, Option.some.injEq] at ownFound
  rw [ownFound, tells]

/-- Another thread is rewritten, or this one but for its reason. -/
theorem Told.setThread
    {changed : Thread}
    (told : Told t reason sys)
    (keeps : other = t → changed.reason = reason) :
    Told t reason (sys.setThread other changed) := by
  refine ⟨told.off, ?_⟩
  by_cases same : t = other
  · subst same
    exact ⟨changed, Function.update_self .., keeps rfl⟩
  · obtain ⟨own, ownFound, tells⟩ := told.tells
    exact ⟨own, (Function.update_of_ne same ..).trans ownFound, tells⟩

/-- A thread is rewritten but for its reason. -/
theorem Told.rewrite
    {thr changed : Thread}
    (told : Told t reason sys)
    (found : sys.threads other = some thr)
    (same : changed.reason = thr.reason) :
    Told t reason (sys.setThread other changed) := by
  refine told.setThread fun isThread => ?_
  subst isThread
  exact same.trans (told.reason_eq found)

/-- Nothing matters but the threads and the wait queues. -/
theorem Told.frame
    (told : Told t reason sys)
    (threads : after.threads = sys.threads)
    (wques : after.wques = sys.wques) :
    Told t reason after := by
  refine ⟨?_, ?_⟩
  · rw [wques]
    exact told.off
  · rw [threads]
    exact told.tells

/-- The end of the scheduler tells nobody anything. -/
theorem Told.returned
    (told : Told t reason sys)
    (other : Nat) :
    Told t reason (sys.returned other) := by
  rw [System.returned]
  split
  · exact told
  case h_2 thr found =>
    exact told.rewrite found rfl

/-- A switch tells nobody anything. -/
theorem Told.threadSwitch
    {cpu prev next : Nat}
    (told : Told t reason sys)
    (switched : sys.threadSwitch cpu prev next = some after) :
    Told t reason after := by
  rw [System.threadSwitch] at switched
  split at switched
  case h_2 => cases switched
  case h_1 prevThr nextThr prevFound nextFound =>
    have left : Told t reason
        ({ sys with current := sys.current.set cpu next }.setThread prev
          { prevThr with resume := .afterThreadSwitch }) := by
      have running : Told t reason
          { sys with current := sys.current.set cpu next } :=
        ⟨told.off, told.tells⟩
      exact running.rewrite prevFound rfl
    split at switched <;> cases switched
    · exact left
    · refine left.setThread fun same => ?_
      subst same
      have reason : nextThr.reason = _ := told.reason_eq nextFound
      exact reason

/-- The scheduler tells nobody anything. -/
theorem Told.schedSchedule
    {cpu : Nat}
    (told : Told t reason sys)
    (done : sys.schedSchedule cpu = some after) :
    Told t reason after := by
  rw [System.schedSchedule] at done
  split at done
  case h_2 => cases done
  case h_1 prev idle runs idles =>
    split at done
    · cases done
    case h_2 prevThr found =>
      split at done
      · cases done
      · split at done
        · cases done
          exact told.returned prev
        · split at done
          · cases done
          case h_2 picked middle got =>
            obtain ⟨threads', -, wques'⟩ := System.getNextThread_frame got
            have picked := told.frame threads' wques'
            simp only at done
            split at done
            · cases done
              exact picked.returned prev
            · split at done
              · split at done
                · cases done
                case h_2 requeued added =>
                  obtain ⟨threads, -, wques⟩ :=
                    System.schedThreadAdd_frame added
                  have runable : Told t reason (middle.setThread prev
                      { prevThr with state := .runable }) :=
                    picked.rewrite ((congrFun threads' prev).trans found) rfl
                  exact (runable.frame threads wques).threadSwitch done
              · exact picked.threadSwitch done

/-- A thread that starts to wait or exits is not the one that still waits. -/
theorem Told.fromOutside
    {cpu : Nat}
    {change : Thread → Thread}
    (told : Told t reason sys)
    (waits : ∃ thr, sys.threads t = some thr ∧ thr.point = .enqueued)
    (done : sys.fromOutside cpu change = some after) :
    Told t reason after := by
  rw [System.fromOutside] at done
  split at done
  · cases done
  · split at done
    · cases done
    · obtain ⟨other, thr, changed, -, found, new, rfl⟩ := atCurrent_cases done
      split at new
      case isFalse => cases new
      case isTrue outside =>
        refine told.setThread fun same => ?_
        subst same
        obtain ⟨own, ownFound, enqueued⟩ := waits
        rw [found, Option.some.injEq] at ownFound
        rw [← ownFound, outside] at enqueued
        cases enqueued

/-- Until it returns from its wait, a thread is told nothing else. -/
theorem Told.step
    {action : SchedAction}
    (told : Told t reason sys)
    (stepped :
      Guarded (StillWaits t) (StepOf schedNext) sys action after) :
    Told t reason after := by
  obtain ⟨waits, done⟩ := stepped
  rw [StepOf] at done
  cases action with
  | initWqueEntry cpu => exact told.fromOutside waits done
  | enqueWqueEntry cpu wq =>
      rw [schedNext, System.enqueWqueEntry] at done
      split at done
      · cases done
      case h_2 first runs =>
        obtain ⟨other, thr, changed, there, found, new, rfl⟩ :=
          atCurrent_cases done
        have isFirst : other = first :=
          Option.some.inj (there.symm.trans runs)
        subst isFirst
        split at new
        case isFalse => cases new
        case isTrue initialized =>
          have different : t ≠ other := by
            rintro rfl
            obtain ⟨own, ownFound, enqueued⟩ := waits
            have same : some thr = some own :=
              found.symm.trans ownFound
            rw [← Option.some.inj same, initialized] at enqueued
            cases enqueued
          refine Told.setThread ⟨fun queue member => ?_, told.tells⟩
            fun same => absurd same.symm different
          by_cases same : queue = wq
          · subst same
            simp only [Function.update_self, List.mem_append,
              List.mem_singleton] at member
            exact member.elim (told.off queue) different
          · simp only [Function.update_of_ne same] at member
            exact told.off queue member
  | schedSchedule cpu => exact told.schedSchedule done
  | wqueWakeup wq why =>
      rw [schedNext, System.wqueWakeup] at done
      split at done
      · cases done
        exact told
      case h_2 other rest queue =>
        have different : other ≠ t := by
          rintro rfl
          exact told.off wq (queue ▸ List.mem_cons_self)
        have dequeued : Told t reason
            { sys with wques := Function.update sys.wques wq rest } := by
          refine ⟨fun elsewhere member => ?_, told.tells⟩
          by_cases same : elsewhere = wq
          · subst same
            simp only [Function.update_self] at member
            exact told.off elsewhere (queue ▸ List.mem_cons_of_mem _ member)
          · simp only [Function.update_of_ne same] at member
            exact told.off elsewhere member
        simp only at done
        split at done
        · cases done
        · split at done
          · obtain ⟨threads, -, wques⟩ := System.schedThreadAdd_frame done
            exact (dequeued.setThread
              fun same => absurd same different).frame threads wques
          · cases done
            exact dequeued.setThread fun same => absurd same different
  | threadStart other prio =>
      rw [schedNext, System.threadStart] at done
      split at done
      case isFalse => cases done
      case isTrue new =>
        obtain ⟨threads, -, wques⟩ := System.schedThreadAdd_frame done
        refine (told.setThread fun same => ?_).frame threads wques
        obtain ⟨own, ownFound, -⟩ := told.tells
        rw [← same, new.2] at ownFound
        cases ownFound
  | threadExit cpu last => exact told.fromOutside waits done
  | incPreempt cpu =>
      obtain ⟨other, thr, changed, -, found, new, rfl⟩ := atCurrent_cases done
      cases new
      exact told.rewrite found rfl
  | decPreempt cpu =>
      obtain ⟨other, thr, changed, -, found, new, rfl⟩ := atCurrent_cases done
      split at new <;> cases new
      exact told.rewrite found rfl

end Seen

/-- A queue of waiters is woken as its flag says. -/
theorem wakesRight
    {sys : System}
    {wq : Nat}
    (waiters : sys.LiveWaiters wq)
    (wqflag : WqueWakeflag)
    (reason : WqueReason) :
    WakesRight sys wq wqflag reason := by
  obtain ⟨after, ended, woke⟩ :=
    wakeupLoop_wokeNow wqflag reason waiters rfl
  refine ⟨_, after, ended, woke.woken, woke.others, woke.ready, woke.waiting, ?_⟩
  intro t member actions final run
  have waited := woken_subset sys.live (sys.wques wq) t member
  obtain ⟨thr, -, isWoken⟩ := woke.woken t member
  have told : Told t reason after := by
    refine ⟨fun queue linked => ?_, _, isWoken, rfl⟩
    rw [woke.waiting] at linked
    by_cases same : queue = wq
    · subst same
      rw [Function.update_self] at linked
      exact woken_not_left waiters.once member linked
    · rw [Function.update_of_ne same] at linked
      exact same (waiters.alone t waited queue linked)
  exact (run.invariant told fun told stepped => told.step stepped).tells

/--
In every state, and whatever is in the entry: the wait function locks and
changes the calling thread alone, and every queue of waiters is woken as its
flag says, if and only if the function needs no lock of the entry's thread or
that is the calling thread.
-/
theorem waitQueueRight_iff
    {function : WaitFunction}
    {cur wq : Nat}
    {st : WaitState}
    (called : function.Called cur st) :
    (function.WaitsAlone cur wq st ∧
        ∀ sys wq wqflag reason,
          sys.LiveWaiters wq → WakesRight sys wq wqflag reason) ↔
      function = .waitForCurthr ∨ st.ent.thr = cur := by
  rw [waitsAlone_iff called]
  exact and_iff_left fun sys wq wqflag reason waiters =>
    wakesRight waiters wqflag reason

/-- A CPU that runs thread 1, with thread 2 to be found on its stack. -/
def entryOfOther (held : List WaitLock) (thr : Nat) : WaitState where
  cpu := { sie := true, held, taken := [] }
  sys := (schedInit [0]).setThread 1 { newThread 130 with state := .run }
  ent := ⟨thr, .released⟩

theorem waitQueueRight_ownEntry :
    (∀ wq,
      WaitFunction.waitOnQueueWithSpinlock.WaitsAlone 1 wq
        (entryOfOther [] 1)) ∧
      ∀ wq,
        WaitFunction.waitForCurthr.WaitsAlone 1 wq
          (entryOfOther [.thread 1] 2) := by
  have called : WaitFunction.waitOnQueueWithSpinlock.Called 1
      (entryOfOther [] 1) :=
    ⟨⟨{ newThread 130 with state := .run }, rfl, rfl⟩, by decide, by decide⟩
  have calledOwn : WaitFunction.waitForCurthr.Called 1
      (entryOfOther [.thread 1] 2) :=
    ⟨⟨{ newThread 130 with state := .run }, rfl, rfl⟩, by decide, by decide⟩
  exact ⟨fun _ => ((waitQueueRight_iff called).mpr (.inr rfl)).1,
    fun _ => ((waitQueueRight_iff calledOwn).mpr (.inl rfl)).1⟩

/--
With thread 2 on its stack, thread 1 takes the lock of that thread and never
gets to the wait queue, for it gives back its own lock.
-/
theorem wait_locks_other :
    WaitFunction.waitOnQueueWithSpinlock.Called 1 (entryOfOther [] 2) ∧
      ((onLocks (spinlockLockDisableIntr (.thread (entryOfOther [] 2).ent.thr)))
        (entryOfOther [] 2)).map (·.2.cpu.held) = some [.thread 2] ∧
      ¬ WaitFunction.waitOnQueueWithSpinlock.WaitsAlone 1 0
        (entryOfOther [] 2) := by
  have called : WaitFunction.waitOnQueueWithSpinlock.Called 1
      (entryOfOther [] 2) :=
    ⟨⟨{ newThread 130 with state := .run }, rfl, rfl⟩, by decide, by decide⟩
  refine ⟨called, by decide, fun alone => ?_⟩
  rcases (waitsAlone_iff called).mp alone with other | same
  · cases other
  · cases same

end RiscvWorkshop.Sched
