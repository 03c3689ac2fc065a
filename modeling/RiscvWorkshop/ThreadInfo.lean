import Mathlib
import RiscvWorkshop.Run
import RiscvWorkshop.ThreadWait
import RiscvWorkshop.SchedQueue

namespace RiscvWorkshop.Sched

open ThreadWait

/-!
# Thread information and delayed dispatch

Each thread has a word of flags and the depths that disable dispatch in the
information at the end of its kernel stack.  A CPU runs one thread, which
changes its own information, and which the scheduler switches away.  What was
asked of a thread is recorded beside its information.
-/

/-- `TI_DISPATCH_DELAYED`. -/
def tiDispatchDelayed : BitVec 32 := 0x1

/-- `TI_EVENT_PENDING`. -/
def tiEventPending : BitVec 32 := 0x2

/-- `thread_info`; `TI_PREEMPT_ACTIVE` is apart from the count in `preempt`. -/
structure ThreadInfo where
  intrcnt : Nat
  preempt : Nat
  preemptActive : Bool
  flags : BitVec 32
  cpu : Nat
deriving Repr, DecidableEq

namespace ThreadInfo

/-- `ti_thread_info_init`. -/
def tiThreadInfoInit (cpu : Nat) : ThreadInfo where
  intrcnt := 0
  preempt := 0
  preemptActive := false
  flags := 0
  cpu := cpu

/-- A depth that disables dispatch is not zero. -/
def Busy (info : ThreadInfo) : Prop :=
  info.preempt ≠ 0 ∨ info.intrcnt ≠ 0

instance (info : ThreadInfo) : Decidable info.Busy :=
  inferInstanceAs (Decidable (_ ∨ _))

/-- `ti_dispatch_disabled`. -/
def tiDispatchDisabled (info : ThreadInfo) : Bool :=
  info.preemptActive || decide info.Busy

/-- `ti_dispatch_delayed`. -/
def tiDispatchDelayed (info : ThreadInfo) : Bool :=
  decide (info.flags &&& Sched.tiDispatchDelayed ≠ 0)

/-- `ti_has_events`. -/
def tiHasEvents (info : ThreadInfo) : Bool :=
  decide (info.flags &&& tiEventPending ≠ 0)

/-- `ti_set_delay_dispatch`. -/
def tiSetDelayDispatch (info : ThreadInfo) : ThreadInfo :=
  { info with flags := info.flags ||| Sched.tiDispatchDelayed }

/-- `ti_clr_delay_dispatch`. -/
def tiClrDelayDispatch (info : ThreadInfo) : ThreadInfo :=
  { info with flags := info.flags &&& ~~~Sched.tiDispatchDelayed }

/-- `ti_set_events`, for the information that it writes. -/
def tiSetEvents (info : ThreadInfo) : ThreadInfo :=
  { info with flags := info.flags ||| tiEventPending }

/-- `ti_clr_events`. -/
def tiClrEvents (info : ThreadInfo) : ThreadInfo :=
  { info with flags := info.flags &&& ~~~tiEventPending }

/-- `ti_set_preempt_active`. -/
def tiSetPreemptActive (info : ThreadInfo) : ThreadInfo :=
  { info with preemptActive := true }

/-- `ti_clr_preempt_active`. -/
def tiClrPreemptActive (info : ThreadInfo) : ThreadInfo :=
  { info with preemptActive := false }

/-- `ti_inc_preempt`. -/
def tiIncPreempt (info : ThreadInfo) : ThreadInfo :=
  { info with preempt := info.preempt + 1 }

/-- `ti_inc_intr`. -/
def tiIncIntr (info : ThreadInfo) : ThreadInfo :=
  { info with intrcnt := info.intrcnt + 1 }

/-- `ti_dec_preempt` up to `preempt_dispatch`; a borrow takes the top bit. -/
def tiDecPreempt (info : ThreadInfo) : Option ThreadInfo :=
  match info.preempt, info.preemptActive with
  | depth + 1, _ => some { info with preempt := depth }
  | 0, true => some { info with preempt := 2 ^ 31 - 1, preemptActive := false }
  | 0, false => none

/-- `ti_dec_intr` up to `preempt_dispatch`. -/
def tiDecIntr (info : ThreadInfo) : Option ThreadInfo :=
  match info.intrcnt with
  | 0 => none
  | depth + 1 => some { info with intrcnt := depth }

/-! ## The two flags -/

section Flags

variable {a b : BitVec 32}

theorem flag_set
    (flags flag : BitVec 32) :
    (flags ||| flag) &&& flag = flag := by
  ext i
  simp
  grind

theorem flag_clr
    (flags flag : BitVec 32) :
    (flags &&& ~~~flag) &&& flag = 0 := by
  rw [BitVec.and_assoc]
  simp

theorem flag_set_other
    (flags : BitVec 32)
    (apart : a &&& b = 0) :
    (flags ||| a) &&& b = flags &&& b := by
  rw [BitVec.and_or_distrib_right, apart]
  simp

theorem flag_clr_other
    (flags : BitVec 32)
    (apart : a &&& b = 0) :
    (flags &&& ~~~a) &&& b = flags &&& b := by
  ext i inWord
  have bit := congrArg (·[i]) apart
  simp at bit ⊢
  grind

end Flags

variable (info : ThreadInfo)

@[simp] theorem tiSetDelayDispatch_delayed :
    info.tiSetDelayDispatch.tiDispatchDelayed = true := by
  simp only [tiDispatchDelayed, tiSetDelayDispatch, flag_set]
  decide

@[simp] theorem tiClrDelayDispatch_delayed :
    info.tiClrDelayDispatch.tiDispatchDelayed = false := by
  simp only [tiDispatchDelayed, tiClrDelayDispatch, flag_clr]
  decide

@[simp] theorem tiSetDelayDispatch_events :
    info.tiSetDelayDispatch.tiHasEvents = info.tiHasEvents := by
  rw [tiHasEvents, tiHasEvents, tiSetDelayDispatch,
    flag_set_other _ (by decide)]

@[simp] theorem tiClrDelayDispatch_events :
    info.tiClrDelayDispatch.tiHasEvents = info.tiHasEvents := by
  rw [tiHasEvents, tiHasEvents, tiClrDelayDispatch,
    flag_clr_other _ (by decide)]

@[simp] theorem tiSetEvents_events :
    info.tiSetEvents.tiHasEvents = true := by
  simp only [tiHasEvents, tiSetEvents, flag_set]
  decide

@[simp] theorem tiClrEvents_events :
    info.tiClrEvents.tiHasEvents = false := by
  simp only [tiHasEvents, tiClrEvents, flag_clr]
  decide

@[simp] theorem tiSetEvents_delayed :
    info.tiSetEvents.tiDispatchDelayed = info.tiDispatchDelayed := by
  rw [tiDispatchDelayed, tiDispatchDelayed, tiSetEvents,
    flag_set_other _ (by decide)]

@[simp] theorem tiClrEvents_delayed :
    info.tiClrEvents.tiDispatchDelayed = info.tiDispatchDelayed := by
  rw [tiDispatchDelayed, tiDispatchDelayed, tiClrEvents,
    flag_clr_other _ (by decide)]

end ThreadInfo

/--
The information of a thread and the calls of `sched_delay_disptach` that it is
in; then whether a dispatch was asked of it while it was busy and has not been
made, whether one was asked of it since it was switched away, and whether
events were set for it since it cleared them.
-/
structure ThreadView where
  info : ThreadInfo
  loops : Nat
  asked : Bool
  requested : Bool
  addressed : Bool
deriving Repr, DecidableEq

namespace ThreadView

/-- A thread that was just made. -/
def fresh (cpu : Nat) : ThreadView where
  info := .tiThreadInfoInit cpu
  loops := 0
  asked := false
  requested := false
  addressed := false

/-- A dispatch is asked of the thread. -/
def request (view : ThreadView) : ThreadView :=
  { view with
    info := view.info.tiSetDelayDispatch
    asked := view.asked || decide view.info.Busy
    requested := true }

/-- The scheduler picks a thread: what was asked of this one is done. -/
def schedule (view : ThreadView) : ThreadView :=
  { view with
    info := view.info.tiSetPreemptActive.tiClrDelayDispatch
    asked := false }

/-- The thread is switched away. -/
def leave (view : ThreadView) : ThreadView :=
  { view with requested := false }

/-- The thread returns from `thr_thread_switch` to the end of the scheduler. -/
def resume (view : ThreadView) (cpu : Nat) : ThreadView :=
  { view with info := { view.info.tiClrPreemptActive with cpu } }

end ThreadView

/-- A thread that returns from `thr_thread_switch`, with what it finds. -/
structure Resumption where
  thread : Nat
  delayed : Bool
  requested : Bool
deriving Repr, DecidableEq

/--
A CPU, the threads, their information, the information of each thread that
called the scheduler when it did, and the threads that came back from it.
-/
structure Machine where
  sys : System
  cpu : Nat
  views : Nat → ThreadView
  dispatches : List ThreadInfo
  resumptions : List Resumption

/-- A CPU that runs its idle thread. -/
def machineInit (cpu idle : Nat) : Machine where
  sys := schedInit [idle]
  cpu := cpu
  views := fun _ => .fresh cpu
  dispatches := []
  resumptions := []

namespace Machine

/-- Rewrite what belongs to one thread. -/
def modify
    (m : Machine)
    (t : Nat)
    (change : ThreadView → ThreadView) : Machine :=
  { m with views := Function.update m.views t (change (m.views t)) }

/-- The thread that the CPU runs does something. -/
def byCurrent
    (m : Machine)
    (action : Nat → Option Machine) : Option Machine :=
  match m.sys.current with
  | [cur] => action cur
  | _ => none

/-- `ti_set_delay_dispatch`. -/
def tiSetDelayDispatch (m : Machine) (t : Nat) : Machine :=
  m.modify t .request

/--
`sched_thread_add` by a thread: a thread of this CPU that becomes runnable asks
for a dispatch of the one that added it.
-/
def schedThreadAdd (m : Machine) (cur t : Nat) : Option Machine :=
  match m.sys.threads t, m.sys.schedThreadAdd t with
  | some thr, some sys =>
      if thr.referable = false then
        some { m with sys }
      else if (m.views t).info.cpu = m.cpu then
        some ({ m with sys }.tiSetDelayDispatch cur)
      else
        some { m with sys }
  | _, _ => none

/--
`thr_thread_switch` and the end of `sched_schedule`, where a thread is that was
switched away before.
-/
def threadSwitch (m : Machine) (prev next : Nat) : Option Machine :=
  match m.sys.threads next, m.sys.threadSwitch 0 prev next with
  | some nextThr, some sys =>
      let left := { m with sys }.modify prev .leave
      match nextThr.resume with
      | .rv64ReturnFromTrap => some left
      | .afterThreadSwitch =>
          let view := left.views next
          some
            { left.modify next (·.resume m.cpu) with
              resumptions := m.resumptions ++
                [⟨next, view.info.tiDispatchDelayed, view.requested⟩] }
  | _, _ => none

/-- The part of `sched_schedule` behind the choice of the next thread. -/
def switchTo (m : Machine) (prev next : Nat) : Option Machine :=
  if prev = next then
    some (m.modify prev fun view =>
      { view with info := view.info.tiClrPreemptActive })
  else
    match m.sys.threads prev with
    | none => none
    | some prevThr =>
        if prevThr.state = .run then
          (({ m with
              sys := m.sys.setThread prev
                { prevThr with state := .runable } }).schedThreadAdd prev
                  prev).bind (·.threadSwitch prev next)
        else
          m.threadSwitch prev next

/-- `sched_schedule`. -/
def schedSchedule (m : Machine) : Option Machine :=
  m.byCurrent fun prev =>
    if (m.views prev).info.tiDispatchDisabled then
      some (m.tiSetDelayDispatch prev)
    else
      match m.sys.getNextThread, m.sys.idleThreads with
      | some (picked, sys), [idle] =>
          ({ m with
              sys
              dispatches :=
                m.dispatches ++ [(m.views prev).info] }.modify prev
                  .schedule).switchTo prev (picked.getD idle)
      | _, _ => none

/-- `preempt_dispatch`. -/
def preemptDispatch (m : Machine) (cur : Nat) : Option Machine :=
  if (m.views cur).info.tiDispatchDelayed ∧
      ¬ (m.views cur).info.tiDispatchDisabled then
    m.schedSchedule
  else
    some m

/-- A depth is decremented, and the CPU is taken away if it was asked for. -/
def decrement
    (m : Machine)
    (dec : ThreadInfo → Option ThreadInfo) : Option Machine :=
  m.byCurrent fun cur =>
    match dec (m.views cur).info with
    | none => none
    | some info => (m.modify cur ({ · with info })).preemptDispatch cur

/-- One turn of the loop of `sched_delay_disptach`. -/
def delayDispatchTurn (m : Machine) : Option Machine :=
  m.byCurrent fun cur =>
    let view := m.views cur
    match view.loops with
    | 0 => none
    | outer + 1 =>
        if view.info.tiHasEvents ∨ view.info.tiDispatchDisabled ∨
            ¬ view.info.tiDispatchDelayed then
          some (m.modify cur ({ · with loops := outer }))
        else
          m.schedSchedule

/-- `ti_set_events`: the argument is overwritten with the caller's own. -/
def tiSetEvents (m : Machine) (ti : Nat) : Option Machine :=
  m.byCurrent fun cur =>
    let addressed := m.modify ti ({ · with addressed := true })
    let ti := cur
    some (addressed.modify ti fun view =>
      { view with info := view.info.tiSetEvents })

/-- `ti_clr_events`. -/
def tiClrEvents (m : Machine) : Option Machine :=
  m.byCurrent fun cur =>
    some (m.modify cur fun view =>
      { view with info := view.info.tiClrEvents, addressed := false })

/-- A thread is made, and asks nothing of anyone. -/
def create (m : Machine) (t : Nat) (thr : Thread) : Option Machine :=
  if m.sys.threads t = none ∧ thr.resume = .rv64ReturnFromTrap then
    some
      ({ m with sys := m.sys.setThread t thr }.modify t fun _ => .fresh m.cpu)
  else
    none

/-- Other code changes a thread, but not where it comes back to. -/
def change (m : Machine) (t : Nat) (thr : Thread) : Option Machine :=
  match m.sys.threads t with
  | none => none
  | some old =>
      if thr.resume = old.resume then
        some { m with sys := m.sys.setThread t thr }
      else
        none

end Machine

/-- What the thread of the CPU does, and what other code does to threads. -/
inductive MachineAction where
  | incPreempt
  | decPreempt
  | incIntr
  | decIntr
  | setDelayDispatch (t : Nat)
  | schedThreadAdd (t : Nat)
  | schedSchedule
  | delayDispatch
  | turn
  | setEvents (ti : Nat)
  | clrEvents
  | create (t : Nat) (thr : Thread)
  | change (t : Nat) (thr : Thread)
deriving Repr, DecidableEq

/-- One step. -/
def machineNext (m : Machine) : MachineAction → Option Machine
  | .incPreempt =>
      m.byCurrent fun cur => some (m.modify cur fun view =>
        { view with info := view.info.tiIncPreempt })
  | .decPreempt => m.decrement ThreadInfo.tiDecPreempt
  | .incIntr =>
      m.byCurrent fun cur => some (m.modify cur fun view =>
        { view with info := view.info.tiIncIntr })
  | .decIntr => m.decrement ThreadInfo.tiDecIntr
  | .setDelayDispatch t => some (m.tiSetDelayDispatch t)
  | .schedThreadAdd t => m.byCurrent fun cur => m.schedThreadAdd cur t
  | .schedSchedule => m.schedSchedule
  | .delayDispatch =>
      m.byCurrent fun cur => some (m.modify cur fun view =>
        { view with loops := view.loops + 1 })
  | .turn => m.delayDispatchTurn
  | .setEvents ti => m.tiSetEvents ti
  | .clrEvents => m.tiClrEvents
  | .create t thr => m.create t thr
  | .change t thr => m.change t thr

end RiscvWorkshop.Sched
