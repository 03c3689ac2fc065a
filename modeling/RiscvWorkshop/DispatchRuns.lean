import Mathlib
import RiscvWorkshop.Run
import RiscvWorkshop.ThreadInfo

namespace RiscvWorkshop.Sched

open ThreadWait

/-!
# When a delayed dispatch is made

No dispatch is made by a busy thread, and one that is asked of a busy thread is
made when it is not busy any more.  A thread that still runs when it is
switched away asks for its own next dispatch as it is put back on the ready
queue, so that it finds its flag set when it comes back.
-/

namespace ThreadInfo

/-- Whether `preempt_dispatch` takes the CPU away. -/
def preempts (info : ThreadInfo) : Bool :=
  info.tiDispatchDelayed && !info.tiDispatchDisabled

end ThreadInfo

namespace Machine

/-- Whether an action gets to the choice of the next thread. -/
def schedules (m : Machine) (action : MachineAction) : Bool :=
  match m.sys.current with
  | [cur] =>
      let view := m.views cur
      match action with
      | .schedSchedule => !view.info.tiDispatchDisabled
      | .decPreempt => view.info.tiDecPreempt.any (·.preempts)
      | .decIntr => view.info.tiDecIntr.any (·.preempts)
      | .turn =>
          decide (view.loops ≠ 0) && !view.info.tiHasEvents &&
            view.info.preempts
      | _ => false
  | _ => false

/--
Whether the scheduler would put the thread that the CPU runs back on the ready
queue, in favour of another, and ask for a dispatch of it.
-/
def requeues (m : Machine) : Bool :=
  match m.sys.current, m.sys.idleThreads, m.sys.getNextThread with
  | [prev], [idle], some (picked, _) =>
      match m.sys.threads prev with
      | none => false
      | some thr =>
          decide (picked.getD idle ≠ prev) && decide (thr.state = .run) &&
            thr.referable && decide ((m.views prev).info.cpu = m.cpu)
  | _, _, _ => false

end Machine

/-- Nobody is switched away in favour of another thread who still runs. -/
def SwitchedToWait (m : Machine) (action : MachineAction) : Prop :=
  m.schedules action = true → m.requeues = false

instance (m : Machine) (action : MachineAction) :
    Decidable (SwitchedToWait m action) :=
  inferInstanceAs (Decidable (_ → _))

/--
No dispatch was made by a busy thread; one that was asked of a busy thread is
not outstanding when it is not busy; who came back found its flag set only
after a new request; and with turns of the loops alone the loops end.
-/
structure DispatchRight
    (step : Machine → MachineAction → Machine → Prop)
    (m : Machine) : Prop where
  enabled : ∀ info ∈ m.dispatches, ¬ info.Busy
  carriedOut : ∀ t, (m.views t).asked = true → (m.views t).info.Busy
  resumed : ∀ resumption ∈ m.resumptions,
    resumption.delayed = true → resumption.requested = true
  leaves : ∃ bound, ∀ turns after,
    (∀ action ∈ turns, action = .turn) →
    Run step m turns after →
    turns.length ≤ bound

/-! ## What the scheduler does -/

namespace System

variable {sys after : System}
variable {prev next t : Nat}

/-- Where a thread comes back to. -/
def resumeOf (sys : System) (t : Nat) : Option ResumePoint :=
  (sys.threads t).map (·.resume)

/-- Rewriting a thread without its place changes no place. -/
theorem resumeOf_setThread
    {thr : Thread}
    (same : some thr.resume = sys.resumeOf t)
    (other : Nat) :
    (sys.setThread t thr).resumeOf other = sys.resumeOf other := by
  by_cases isThread : other = t
  · subst isThread
    rw [← same]
    simp [resumeOf, setThread]
  · simp [resumeOf, setThread, isThread]

/-- After a switch the CPU runs the next thread, and the other is away. -/
theorem threadSwitch_frame
    (switched : sys.threadSwitch 0 prev next = some after)
    (current : sys.current = [prev])
    (different : prev ≠ next) :
    after.current = [next] ∧
      ∀ t, after.resumeOf t =
        if t = prev then some .afterThreadSwitch else sys.resumeOf t := by
  rw [threadSwitch] at switched
  split at switched
  case h_2 => cases switched
  case h_1 prevThr nextThr prevFound nextFound =>
    have away : ∀ t,
        ({ sys with current := sys.current.set 0 next }.setThread prev
            { prevThr with resume := .afterThreadSwitch }).resumeOf t =
          if t = prev then some .afterThreadSwitch else sys.resumeOf t := by
      intro t
      by_cases same : t = prev <;> simp [resumeOf, setThread, same]
    split at switched <;> cases switched
    case h_1 =>
      exact ⟨by simp [setThread, current], away⟩
    case h_2 resume =>
      refine ⟨by simp [setThread, current], fun t => ?_⟩
      rw [resumeOf_setThread, away t]
      rw [away next, if_neg different.symm, resumeOf, nextFound]
      rfl

end System

namespace Machine

/-- What is found where a thread arrives that the CPU is given to. -/
inductive Arrived (m : Machine) (next : Nat) (after : Machine) : Prop where
  | first
      (place : m.sys.resumeOf next = some .rv64ReturnFromTrap)
      (view : after.views next = m.views next)
      (resumptions : after.resumptions = m.resumptions)
  | back
      (place : m.sys.resumeOf next = some .afterThreadSwitch)
      (view : after.views next = (m.views next).resume m.cpu)
      (resumptions : after.resumptions = m.resumptions ++
        [⟨next, (m.views next).info.tiDispatchDelayed,
          (m.views next).requested⟩])

/-- A switch away from a thread, which had a view when it left. -/
structure Switched
    (m : Machine)
    (prev next : Nat)
    (view : ThreadView)
    (after : Machine) : Prop where
  different : prev ≠ next
  current : after.sys.current = [next]
  places : ∀ t, after.sys.resumeOf t =
    if t = prev then some .afterThreadSwitch else m.sys.resumeOf t
  away : after.views prev = view.leave
  others : ∀ t, t ≠ prev → t ≠ next → after.views t = m.views t
  arrived : Arrived m next after

/-- What a call of the scheduler by a thread does. -/
inductive Scheduled (m : Machine) (prev : Nat) (after : Machine) : Prop where
  | disabled
      (isDisabled : (m.views prev).info.tiDispatchDisabled = true)
      (asked : after = m.tiSetDelayDispatch prev)
  | stayed
      (isEnabled : (m.views prev).info.tiDispatchDisabled = false)
      (current : after.sys.current = [prev])
      (places : ∀ t, after.sys.resumeOf t = m.sys.resumeOf t)
      (views : after.views = Function.update m.views prev
        { (m.views prev).schedule with
          info := (m.views prev).schedule.info.tiClrPreemptActive })
      (dispatches : after.dispatches = m.dispatches ++ [(m.views prev).info])
      (resumptions : after.resumptions = m.resumptions)
  | switched
      (isEnabled : (m.views prev).info.tiDispatchDisabled = false)
      (next : Nat)
      (again : Bool)
      (requeued : again = true → m.requeues = true)
      (switched : Switched m prev next
        (if again then (m.views prev).schedule.request
          else (m.views prev).schedule) after)
      (dispatches : after.dispatches = m.dispatches ++ [(m.views prev).info])

variable {m after : Machine}
variable {cur prev next t : Nat}

@[simp] theorem modify_self
    (m : Machine)
    (t : Nat)
    (change : ThreadView → ThreadView) :
    (m.modify t change).views t = change (m.views t) :=
  Function.update_self ..

theorem modify_of_ne
    {other : Nat}
    (different : other ≠ t)
    (m : Machine)
    (change : ThreadView → ThreadView) :
    (m.modify t change).views other = m.views other :=
  Function.update_of_ne different ..

/-- The CPU runs the thread that acts. -/
theorem byCurrent_eq_some
    {action : Nat → Option Machine}
    (done : m.byCurrent action = some after) :
    ∃ cur, m.sys.current = [cur] ∧ action cur = some after := by
  rw [byCurrent] at done
  split at done
  case h_1 cur current => exact ⟨cur, current, done⟩
  case h_2 => cases done

/-- A thread is added, and may ask for a dispatch of the one that adds it. -/
theorem schedThreadAdd_cases
    (added : m.schedThreadAdd cur t = some after) :
    ∃ sys,
      sys.threads = m.sys.threads ∧ sys.current = m.sys.current ∧
        (after = { m with sys } ∨
          (after = { m with sys }.tiSetDelayDispatch cur ∧
            ∃ thr, m.sys.threads t = some thr ∧ thr.referable = true ∧
              (m.views t).info.cpu = m.cpu)) := by
  rw [schedThreadAdd] at added
  split at added
  case h_2 => cases added
  case h_1 thr sys found called =>
    obtain ⟨threads, current, -⟩ := System.schedThreadAdd_frame called
    refine ⟨sys, threads, current, ?_⟩
    split at added
    · exact .inl (Option.some.inj added).symm
    case isFalse referable =>
      split at added
      case isTrue here =>
        exact .inr ⟨(Option.some.inj added).symm, thr, found,
          Bool.eq_true_of_not_eq_false referable, here⟩
      · exact .inl (Option.some.inj added).symm

/-- The switch itself. -/
theorem threadSwitch_switched
    (done : m.threadSwitch prev next = some after)
    (current : m.sys.current = [prev])
    (different : prev ≠ next) :
    Switched m prev next (m.views prev) after ∧
      after.dispatches = m.dispatches := by
  rw [threadSwitch] at done
  split at done
  case h_2 => cases done
  case h_1 nextThr sys found called =>
    obtain ⟨running, places⟩ :=
      System.threadSwitch_frame called current different
    have place : m.sys.resumeOf next = some nextThr.resume := by
      rw [System.resumeOf, found, Option.map_some]
    have nextView :
        (({ m with sys } : Machine).modify prev .leave).views next =
          m.views next :=
      modify_of_ne different.symm ..
    have prevView :
        (({ m with sys } : Machine).modify prev .leave).views prev =
          (m.views prev).leave :=
      modify_self ..
    split at done
    case h_1 resume =>
      cases done
      refine ⟨⟨different, running, places, prevView, ?_, ?_⟩, rfl⟩
      · exact fun t notPrev _ => modify_of_ne notPrev ..
      · exact .first (place.trans (congrArg some resume)) nextView rfl
    case h_2 resume =>
      cases done
      refine ⟨⟨different, running, places, ?_, ?_, ?_⟩, rfl⟩
      · exact (modify_of_ne different _ (·.resume m.cpu)).trans prevView
      · exact fun t notPrev notNext =>
          (modify_of_ne notNext _ (·.resume m.cpu)).trans
            (modify_of_ne notPrev _ ThreadView.leave)
      · refine .back (place.trans (congrArg some resume)) ?_ ?_
        · refine (modify_self _ next (·.resume m.cpu)).trans ?_
          rw [nextView]
        · change m.resumptions ++ [_] = _
          rw [nextView]

/-- What was done to the thread that leaves does not matter to the others. -/
theorem Switched.of_middle
    {middle : Machine}
    {view : ThreadView}
    (switched : Switched middle prev next view after)
    (places : ∀ t, middle.sys.resumeOf t = m.sys.resumeOf t)
    (views : ∀ t, t ≠ prev → middle.views t = m.views t)
    (cpu : middle.cpu = m.cpu)
    (resumptions : middle.resumptions = m.resumptions) :
    Switched m prev next view after := by
  have nextView := views next switched.different.symm
  refine ⟨switched.different, switched.current, ?_, switched.away, ?_, ?_⟩
  · intro t
    rw [switched.places, places]
  · intro t notPrev notNext
    rw [switched.others t notPrev notNext, views t notPrev]
  · cases switched.arrived with
    | first place view same =>
        exact .first ((places next).symm.trans place) (view.trans nextView)
          (same.trans resumptions)
    | back place view same =>
        rw [nextView, cpu] at view
        rw [nextView, resumptions] at same
        exact .back ((places next).symm.trans place) view same

/-- A thread that is put back on the ready queue is switched away. -/
theorem switchTo_switched
    (done : m.switchTo prev next = some after)
    (current : m.sys.current = [prev])
    (different : prev ≠ next) :
    ∃ again : Bool,
      (again = true → ∃ thr, m.sys.threads prev = some thr ∧
        thr.state = .run ∧ thr.referable = true ∧
          (m.views prev).info.cpu = m.cpu) ∧
        Switched m prev next
          (if again then (m.views prev).request else m.views prev) after ∧
        after.dispatches = m.dispatches := by
  rw [switchTo, if_neg different] at done
  split at done
  · cases done
  case h_2 thr found =>
    split at done
    case isFalse =>
      obtain ⟨switched, dispatches⟩ :=
        threadSwitch_switched done current different
      exact ⟨false, nofun, switched, dispatches⟩
    case isTrue running =>
      obtain ⟨middle, added, last⟩ := Option.bind_eq_some_iff.mp done
      obtain ⟨sys, threads, running', asked⟩ := schedThreadAdd_cases added
      have place : some ({ thr with state := .runable } : Thread).resume =
          m.sys.resumeOf prev := by
        rw [System.resumeOf, found, Option.map_some]
      have places : ∀ t, sys.resumeOf t = m.sys.resumeOf t := by
        intro t
        rw [System.resumeOf, threads]
        exact System.resumeOf_setThread place t
      have onCpu : sys.current = [prev] :=
        running'.trans current
      rcases asked with rfl | ⟨rfl, thr', found', referable, here⟩
      · obtain ⟨switched, dispatches⟩ :=
          threadSwitch_switched last onCpu different
        refine ⟨false, nofun, ?_, dispatches⟩
        exact switched.of_middle places (fun _ _ => rfl) rfl rfl
      · obtain ⟨switched, dispatches⟩ :=
          threadSwitch_switched last onCpu different
        have same : thr' = { thr with state := .runable } := by
          simpa [System.setThread] using found'.symm
        rw [same] at referable
        refine ⟨true, fun _ => ⟨thr, found, running, referable, here⟩, ?_,
          dispatches⟩
        rw [tiSetDelayDispatch, modify_self] at switched
        exact switched.of_middle places (fun t other => modify_of_ne other ..)
          rfl rfl

/-- A call of the scheduler does one of three things. -/
theorem schedSchedule_cases
    (done : m.schedSchedule = some after)
    (current : m.sys.current = [prev]) :
    Scheduled m prev after := by
  obtain ⟨cur, current', done⟩ := byCurrent_eq_some done
  rw [current, List.singleton_inj] at current'
  subst current'
  split at done
  case isTrue disabled =>
    exact .disabled disabled (Option.some.inj done).symm
  case isFalse enabled =>
    rw [Bool.not_eq_true] at enabled
    split at done
    case h_2 => cases done
    case h_1 picked sys idle got idles =>
      obtain ⟨threads, running, -⟩ := System.getNextThread_frame got
      have places : ∀ t, sys.resumeOf t = m.sys.resumeOf t := by
        intro t
        rw [System.resumeOf, threads, System.resumeOf]
      by_cases same : prev = picked.getD idle
      · rw [switchTo, if_pos same] at done
        cases done
        refine .stayed enabled (running.trans current) places ?_ rfl rfl
        change Function.update (Function.update m.views prev _) prev _ = _
        rw [Function.update_idem]
        exact congrArg (Function.update m.views prev)
          (by rw [modify_self])
      · obtain ⟨again, requeued, switched, dispatches⟩ :=
          switchTo_switched done (running.trans current) same
        refine .switched enabled (picked.getD idle) again ?_ ?_ dispatches
        · intro isAgain
          obtain ⟨thr, found, run, referable, here⟩ := requeued isAgain
          rw [modify_self] at here
          have found : m.sys.threads prev = some thr :=
            threads ▸ found
          have other : picked.getD idle ≠ prev :=
            fun eq => same eq.symm
          have here : (m.views prev).info.cpu = m.cpu :=
            here
          simp [requeues, current, idles, got, found, other, run, referable,
            here]
        · rw [modify_self] at switched
          exact switched.of_middle places (fun t other => modify_of_ne other ..)
            rfl rfl

/-- A turn leaves the loop, or calls the scheduler with dispatch enabled. -/
theorem delayDispatchTurn_cases
    (done : m.delayDispatchTurn = some after) :
    ∃ cur,
      m.sys.current = [cur] ∧ (m.views cur).loops ≠ 0 ∧
        (after = m.modify cur (fun view =>
            { view with loops := view.loops - 1 }) ∨
          ((m.views cur).info.tiHasEvents = false ∧
            (m.views cur).info.preempts = true) ∧
          m.schedSchedule = some after) := by
  obtain ⟨cur, current, done⟩ := byCurrent_eq_some done
  simp only at done
  refine ⟨cur, current, ?_⟩
  split at done
  case h_1 => cases done
  case h_2 outer loops =>
    refine ⟨by omega, ?_⟩
    split at done
    case isTrue =>
      refine .inl ((Option.some.inj done).symm.trans ?_)
      rw [Machine.modify, Machine.modify, loops]
      rfl
    case isFalse goesOn =>
      simp only [not_or, Bool.not_eq_true, Bool.not_eq_false] at goesOn
      obtain ⟨events, enabled, delayed⟩ := goesOn
      exact .inr ⟨⟨events, by rw [ThreadInfo.preempts, delayed, enabled]; rfl⟩,
        done⟩

end Machine

/-! ## The invariant -/

/-- What is left to do in the loops of a thread. -/
def ThreadView.weight (view : ThreadView) : Nat :=
  (if view.info.tiDispatchDelayed then 1 else 0) + view.loops

theorem ThreadView.weight_fresh
    (cpu : Nat) :
    (ThreadView.fresh cpu).weight = 0 := by
  simp [weight, fresh, ThreadInfo.tiThreadInfoInit,
    ThreadInfo.tiDispatchDelayed]

/-- A thread that is switched away, so that it comes back to the scheduler. -/
def Machine.Away (m : Machine) (t : Nat) : Prop :=
  m.sys.resumeOf t = some .afterThreadSwitch ∧ t ∉ m.sys.current

/--
What was asked of the threads, but for some of them whose depths are changed,
and where the threads are whose flags are set.
-/
structure DispatchSound (hand : List Nat) (m : Machine) : Prop where
  enabled : ∀ info ∈ m.dispatches, ¬ info.Busy
  asked : ∀ t, (m.views t).asked = true →
    (m.views t).info.tiDispatchDelayed = true ∧
      (t ∉ hand → (m.views t).info.Busy)
  active : ∀ t, (m.views t).info.preemptActive = true → m.Away t
  away : ∀ t, m.Away t →
    (m.views t).info.tiDispatchDelayed = true → (m.views t).requested = true
  resumed : ∀ resumption ∈ m.resumptions,
    resumption.delayed = true → resumption.requested = true
  finite : ∃ made : List Nat, ∀ t, t ∉ made → (m.views t).weight = 0

namespace DispatchSound

open Machine

variable {m after : Machine}
variable {hand : List Nat}
variable {t cur prev : Nat}

/-- At the start nothing is asked of anyone. -/
theorem initial
    (cpu idle : Nat) :
    DispatchSound [] (machineInit cpu idle) := by
  constructor
  case enabled => exact nofun
  case asked => exact fun _ => nofun
  case active => exact fun _ => nofun
  case away =>
    intro t away
    have place := away.1
    rw [System.resumeOf, machineInit, schedInit] at place
    simp only [Option.map_eq_some_iff] at place
    obtain ⟨thr, found, place⟩ := place
    split at found <;> cases found
    cases place
  case resumed => exact nofun
  case finite => exact ⟨[], fun _ _ => ThreadView.weight_fresh cpu⟩

/-- Other threads may be in hand. -/
theorem mono
    (sound : DispatchSound [] m) :
    DispatchSound hand m :=
  { sound with
    asked := fun t asked =>
      ⟨(sound.asked t asked).1, fun _ => (sound.asked t asked).2 nofun⟩ }

/-- Only which threads are away matters of the threads and the queues. -/
theorem of_away
    (sound : DispatchSound hand m)
    {sys : System}
    (same : ∀ t, ({ m with sys } : Machine).Away t ↔ m.Away t) :
    DispatchSound hand { m with sys } :=
  { sound with
    active := fun t active => (same t).mpr (sound.active t active)
    away := fun t away => sound.away t ((same t).mp away) }

/-- The queues and the states of the threads do not matter. -/
theorem relabel
    (sound : DispatchSound hand m)
    {sys : System}
    (places : ∀ t, sys.resumeOf t = m.sys.resumeOf t)
    (current : sys.current = m.sys.current) :
    DispatchSound hand { m with sys } := by
  refine sound.of_away fun t => ?_
  simp only [Away, places, current]

/-- What belongs to one thread is rewritten. -/
theorem modify
    (sound : DispatchSound hand m)
    {change : ThreadView → ThreadView}
    (asked : (change (m.views t)).asked = true →
      (change (m.views t)).info.tiDispatchDelayed = true ∧
        (t ∉ hand → (change (m.views t)).info.Busy))
    (active : (change (m.views t)).info.preemptActive = true → m.Away t)
    (away : m.Away t →
      (change (m.views t)).info.tiDispatchDelayed = true →
      (change (m.views t)).requested = true) :
    DispatchSound hand (m.modify t change) := by
  constructor
  case enabled => exact sound.enabled
  case asked =>
    intro other
    by_cases same : other = t
    · subst same
      rw [modify_self]
      exact asked
    · rw [modify_of_ne same]
      exact sound.asked other
  case active =>
    intro other
    by_cases same : other = t
    · subst same
      rw [modify_self]
      exact active
    · rw [modify_of_ne same]
      exact sound.active other
  case away =>
    intro other
    by_cases same : other = t
    · subst same
      rw [modify_self]
      exact away
    · rw [modify_of_ne same]
      exact sound.away other
  case resumed => exact sound.resumed
  case finite =>
    obtain ⟨made, rest⟩ := sound.finite
    refine ⟨t :: made, fun other outside => ?_⟩
    rw [List.mem_cons, not_or] at outside
    rw [modify_of_ne outside.1]
    exact rest other outside.2

/-- A dispatch is asked of a thread. -/
theorem request
    (sound : DispatchSound hand m)
    (t : Nat) :
    DispatchSound hand (m.tiSetDelayDispatch t) := by
  refine sound.modify ?_ (sound.active t) (fun _ _ => rfl)
  intro asked
  refine ⟨ThreadInfo.tiSetDelayDispatch_delayed _, fun out => ?_⟩
  simp only [ThreadView.request, Bool.or_eq_true, decide_eq_true_eq] at asked
  rcases asked with before | busy
  · exact (sound.asked t before).2 out
  · exact busy

/-- The thread that the CPU runs is not away. -/
theorem not_away
    (current : m.sys.current = [cur]) :
    ¬ m.Away cur := by
  intro away
  rw [Away, current] at away
  exact away.2 List.mem_cons_self

/-- The thread that the CPU runs cannot dispatch exactly when it is busy. -/
theorem disabled_iff
    (sound : DispatchSound hand m)
    (current : m.sys.current = [cur]) :
    (m.views cur).info.tiDispatchDisabled = true ↔
      (m.views cur).info.Busy := by
  have inactive : (m.views cur).info.preemptActive = false :=
    Bool.eq_false_of_not_eq_true
      fun active => not_away current (sound.active cur active)
  simp [ThreadInfo.tiDispatchDisabled, inactive]

/-- A switch, for a thread that is not put back, keeps the invariant. -/
theorem switched
    (sound : DispatchSound [prev] m)
    {next : Nat}
    (current : m.sys.current = [prev])
    (switched : Switched m prev next (m.views prev).schedule after)
    (enabled : ∀ info ∈ after.dispatches, ¬ info.Busy) :
    DispatchSound [] after := by
  have away_iff : ∀ t, after.Away t ↔ t = prev ∨ (m.Away t ∧ t ≠ next) := by
    intro t
    rw [Away, Away, switched.places, switched.current, current,
      List.mem_singleton, List.mem_singleton]
    by_cases same : t = prev
    · subst same
      simp [switched.different]
    · simp [same]
  have notPrev : next ≠ prev :=
    switched.different.symm
  have unasked : (after.views prev).info.tiDispatchDelayed = false := by
    rw [switched.away]
    exact ThreadInfo.tiClrDelayDispatch_delayed _
  -- what is known of the threads other than the one that left
  have cases_view : ∀ t, t ≠ prev →
      (after.views t).asked = (m.views t).asked ∧
        (after.views t).requested = (m.views t).requested ∧
        (after.views t).loops = (m.views t).loops ∧
        (after.views t).info.tiDispatchDelayed =
          (m.views t).info.tiDispatchDelayed ∧
        ((after.views t).info.Busy ↔ (m.views t).info.Busy) ∧
        ((after.views t).info.preemptActive = true →
          t ≠ next ∧ (m.views t).info.preemptActive = true) := by
    intro t other
    by_cases isNext : t = next
    · subst isNext
      cases switched.arrived with
      | first place view =>
          rw [view]
          refine ⟨rfl, rfl, rfl, rfl, Iff.rfl, fun active => ?_⟩
          have back := (sound.active t active).1
          rw [place] at back
          cases back
      | back place view =>
          rw [view]
          exact ⟨rfl, rfl, rfl, rfl, Iff.rfl, nofun⟩
    · rw [switched.others t other isNext]
      exact ⟨rfl, rfl, rfl, rfl, Iff.rfl, fun active => ⟨isNext, active⟩⟩
  constructor
  case enabled => exact enabled
  case asked =>
    intro t asked
    by_cases same : t = prev
    · subst same
      rw [switched.away] at asked
      cases asked
    · obtain ⟨sameAsked, -, -, sameFlag, sameBusy, -⟩ := cases_view t same
      rw [sameAsked] at asked
      obtain ⟨delayed, busy⟩ := sound.asked t asked
      exact ⟨sameFlag.trans delayed,
        fun _ => sameBusy.mpr (busy (by simpa using same))⟩
  case active =>
    intro t active
    rw [away_iff]
    by_cases same : t = prev
    · exact .inl same
    · obtain ⟨-, -, -, -, -, sameActive⟩ := cases_view t same
      obtain ⟨notNext, before⟩ := sameActive active
      exact .inr ⟨sound.active t before, notNext⟩
  case away =>
    intro t away delayed
    rcases (away_iff t).mp away with rfl | ⟨before, notNext⟩
    · rw [unasked] at delayed
      cases delayed
    · have same : t ≠ prev := by
        rintro rfl
        exact not_away current before
      obtain ⟨-, sameRequested, -, sameFlag, -, -⟩ := cases_view t same
      rw [sameRequested]
      exact sound.away t before (sameFlag.symm.trans delayed)
  case resumed =>
    cases switched.arrived with
    | first place view resumptions =>
        rw [resumptions]
        exact sound.resumed
    | back place view resumptions =>
        rw [resumptions]
        intro resumption member
        rcases List.mem_append.mp member with before | last
        · exact sound.resumed resumption before
        · obtain rfl := List.mem_singleton.mp last
          refine sound.away next ⟨place, ?_⟩
          rw [current, List.mem_singleton]
          exact notPrev
  case finite =>
    obtain ⟨made, rest⟩ := sound.finite
    refine ⟨prev :: made, fun t outside => ?_⟩
    rw [List.mem_cons, not_or] at outside
    obtain ⟨-, -, sameLoops, sameFlag, -, -⟩ := cases_view t outside.1
    rw [ThreadView.weight, sameLoops, sameFlag]
    exact rest t outside.2

/-- A call of the scheduler that puts nobody back keeps the invariant. -/
theorem scheduled
    (sound : DispatchSound [prev] m)
    (current : m.sys.current = [prev])
    (waits : (m.views prev).info.tiDispatchDisabled = false →
      m.requeues = false)
    (done : m.schedSchedule = some after) :
    DispatchSound [] after := by
  have notBusy : (m.views prev).info.tiDispatchDisabled = false →
      ¬ (m.views prev).info.Busy := by
    intro enabled busy
    rw [(sound.disabled_iff current).mpr busy] at enabled
    cases enabled
  have enabledAfter : ∀ dispatches,
      dispatches = m.dispatches ++ [(m.views prev).info] →
      (m.views prev).info.tiDispatchDisabled = false →
      ∀ info ∈ dispatches, ¬ info.Busy := by
    rintro _ rfl enabled info member
    rcases List.mem_append.mp member with before | last
    · exact sound.enabled info before
    · exact List.mem_singleton.mp last ▸ notBusy enabled
  cases schedSchedule_cases done current with
  | disabled isDisabled asked =>
      subst asked
      have requested := sound.request prev
      have busy := (sound.disabled_iff current).mp isDisabled
      refine { requested with asked := fun t asked => ?_ }
      refine ⟨(requested.asked t asked).1, fun _ => ?_⟩
      by_cases same : t = prev
      · subst same
        rw [tiSetDelayDispatch, modify_self]
        exact busy
      · exact (requested.asked t asked).2 (by simpa using same)
  | stayed enabled running places views dispatches resumptions =>
      have stayed : DispatchSound [prev] (Machine.modify _ prev fun view =>
          { view.schedule with info := view.schedule.info.tiClrPreemptActive }) :=
        (sound.relabel places (running.trans current.symm)).modify nofun nofun
          (fun away => absurd away.2 (by simp [running]))
      constructor
      case enabled => exact enabledAfter _ dispatches enabled
      case asked =>
        intro t asked
        rw [views] at asked ⊢
        obtain ⟨delayed, busy⟩ := stayed.asked t asked
        refine ⟨delayed, fun _ => busy fun same => ?_⟩
        rw [List.mem_singleton.mp same, Function.update_self] at asked
        cases asked
      case active => exact views ▸ stayed.active
      case away => exact views ▸ stayed.away
      case resumed => exact resumptions ▸ sound.resumed
      case finite => exact views ▸ stayed.finite
  | switched enabled next again requeued switched dispatches =>
      have notAgain : again = false := by
        cases again with
        | false => rfl
        | true =>
            rw [waits enabled] at requeued
            exact absurd (requeued rfl) nofun
      subst notAgain
      exact sound.switched current switched
        (enabledAfter _ dispatches enabled)

/-- Whether a thread would be put back depends on where it was made to run. -/
theorem requeues_modify
    {change : ThreadView → ThreadView}
    (current : m.sys.current = [cur])
    (sameCpu : (change (m.views cur)).info.cpu = (m.views cur).info.cpu) :
    (m.modify cur change).requeues = m.requeues := by
  have sys : (m.modify cur change).sys = m.sys :=
    rfl
  have cpu : (m.modify cur change).cpu = m.cpu :=
    rfl
  rw [requeues, requeues, sys, current, cpu]
  cases m.sys.idleThreads with
  | nil => rfl
  | cons idle rest =>
      cases rest with
      | cons => rfl
      | nil =>
          cases m.sys.getNextThread with
          | none => rfl
          | some got =>
              simp only [modify_self, sameCpu]

/-- A depth is decremented by the thread that the CPU runs. -/
theorem decrement
    (sound : DispatchSound [] m)
    {dec : ThreadInfo → Option ThreadInfo}
    (keeps : ∀ {info after}, dec info = some after →
      after.flags = info.flags ∧
        (info.preemptActive = false → after.preemptActive = false))
    (waits : ∀ cur, m.sys.current = [cur] →
      (dec (m.views cur).info).any (·.preempts) = true → m.requeues = false)
    (sameCpu : ∀ {info after}, dec info = some after → after.cpu = info.cpu)
    (done : m.decrement dec = some after) :
    DispatchSound [] after := by
  obtain ⟨cur, current, done⟩ := byCurrent_eq_some done
  split at done
  · cases done
  case h_2 info decremented =>
    obtain ⟨sameFlags, staysInactive⟩ := keeps decremented
    have sameFlag :
        info.tiDispatchDelayed = (m.views cur).info.tiDispatchDelayed := by
      rw [ThreadInfo.tiDispatchDelayed, sameFlags]
      rfl
    have inactive : (m.views cur).info.preemptActive = false :=
      Bool.eq_false_of_not_eq_true
        fun active => not_away current (sound.active cur active)
    have less : DispatchSound [cur] (m.modify cur ({ · with info })) := by
      refine sound.mono.modify ?_ ?_ fun away => absurd away (not_away current)
      · intro asked
        exact ⟨sameFlag.trans (sound.asked cur asked).1,
          fun out => absurd List.mem_cons_self out⟩
      · intro active
        rw [staysInactive inactive] at active
        cases active
    have current' : (m.modify cur ({ · with info })).sys.current = [cur] :=
      current
    rw [preemptDispatch, modify_self] at done
    split at done
    case isTrue preempts =>
      refine less.scheduled current' (fun _ => ?_) done
      have calls : (dec (m.views cur).info).any (·.preempts) = true := by
        rw [decremented]
        simpa [ThreadInfo.preempts] using preempts
      have stays : (m.modify cur ({ · with info })).requeues = m.requeues :=
        requeues_modify current (sameCpu decremented)
      exact stays.trans (waits cur current calls)
    case isFalse goesOn =>
      cases done
      refine { less with asked := fun t asked => ?_ }
      refine ⟨(less.asked t asked).1, fun _ => ?_⟩
      by_cases same : t = cur
      · subst same
        refine (less.disabled_iff current').mp ?_
        by_contra enabled
        have delayed := (less.asked t asked).1
        rw [modify_self] at delayed enabled
        exact goesOn ⟨delayed, enabled⟩
      · exact (less.asked t asked).2 (by simpa using same)

/-- A thread that is made is not away. -/
theorem create
    (sound : DispatchSound [] m)
    {thr : Thread}
    (made : m.create t thr = some after) :
    DispatchSound [] after := by
  rw [Machine.create] at made
  split at made
  case isFalse => cases made
  case isTrue new =>
    obtain ⟨missing, first⟩ := new
    cases made
    have same : ∀ other,
        ({ m with sys := m.sys.setThread t thr } : Machine).Away other ↔
          m.Away other := by
      intro other
      by_cases isThread : other = t
      · subst isThread
        simp [Away, System.resumeOf, System.setThread, first, missing]
      · simp [Away, System.resumeOf, System.setThread, isThread]
    refine (sound.of_away same).modify nofun nofun fun away => ?_
    have back := ((same t).mp away).1
    rw [System.resumeOf, missing] at back
    cases back

/-- Every step that puts nobody back keeps the invariant. -/
theorem step
    {action : MachineAction}
    (sound : DispatchSound [] m)
    (stepped : Guarded SwitchedToWait (StepOf machineNext) m action after) :
    DispatchSound [] after := by
  obtain ⟨waits, done⟩ := stepped
  rw [StepOf] at done
  cases action with
  | incPreempt =>
      obtain ⟨cur, current, done⟩ := byCurrent_eq_some done
      cases done
      exact sound.modify
        (fun asked => ⟨(sound.asked cur asked).1, fun _ => .inl nofun⟩)
        (sound.active cur) (sound.away cur)
  | incIntr =>
      obtain ⟨cur, current, done⟩ := byCurrent_eq_some done
      cases done
      exact sound.modify
        (fun asked => ⟨(sound.asked cur asked).1, fun _ => .inr nofun⟩)
        (sound.active cur) (sound.away cur)
  | decPreempt =>
      refine sound.decrement ?_ ?_ ?_ done
      · intro info less decremented
        rw [ThreadInfo.tiDecPreempt] at decremented
        split at decremented <;> cases decremented
        · exact ⟨rfl, id⟩
        · exact ⟨rfl, fun _ => rfl⟩
      · intro cur current calls
        exact waits (by simpa only [schedules, current] using calls)
      · intro info less decremented
        rw [ThreadInfo.tiDecPreempt] at decremented
        split at decremented <;> cases decremented <;> rfl
  | decIntr =>
      refine sound.decrement ?_ ?_ ?_ done
      · intro info less decremented
        rw [ThreadInfo.tiDecIntr] at decremented
        split at decremented <;> cases decremented
        exact ⟨rfl, id⟩
      · intro cur current calls
        exact waits (by simpa only [schedules, current] using calls)
      · intro info less decremented
        rw [ThreadInfo.tiDecIntr] at decremented
        split at decremented <;> cases decremented
        rfl
  | setDelayDispatch t =>
      cases done
      exact sound.request t
  | schedThreadAdd t =>
      obtain ⟨cur, current, done⟩ := byCurrent_eq_some done
      obtain ⟨sys, threads, running, asked⟩ := schedThreadAdd_cases done
      have added : DispatchSound [] { m with sys } :=
        sound.relabel (fun t => by rw [System.resumeOf, threads]; rfl) running
      rcases asked with rfl | ⟨rfl, -⟩
      · exact added
      · exact added.request cur
  | schedSchedule =>
      obtain ⟨cur, current, -⟩ := byCurrent_eq_some done
      refine sound.mono.scheduled current (fun enabled => ?_) done
      exact waits (by simp [schedules, current, enabled])
  | delayDispatch =>
      obtain ⟨cur, current, done⟩ := byCurrent_eq_some done
      cases done
      exact sound.modify (sound.asked cur) (sound.active cur) (sound.away cur)
  | turn =>
      obtain ⟨cur, current, looping, leaves | ⟨goesOn, called⟩⟩ :=
        delayDispatchTurn_cases done
      · obtain rfl := leaves
        exact sound.modify (sound.asked cur) (sound.active cur)
          (sound.away cur)
      · refine sound.mono.scheduled current (fun _ => waits ?_) called
        simp [schedules, current, looping, goesOn]
  | setEvents ti =>
      obtain ⟨cur, current, done⟩ := byCurrent_eq_some done
      cases done
      have addressed :
          DispatchSound [] (m.modify ti ({ · with addressed := true })) :=
        sound.modify (sound.asked ti) (sound.active ti) (sound.away ti)
      refine addressed.modify (fun asked => ?_) (addressed.active cur) ?_
      · obtain ⟨delayed, busy⟩ := addressed.asked cur asked
        exact ⟨(ThreadInfo.tiSetEvents_delayed _).trans delayed, busy⟩
      · simpa only [ThreadInfo.tiSetEvents_delayed] using addressed.away cur
  | clrEvents =>
      obtain ⟨cur, current, done⟩ := byCurrent_eq_some done
      cases done
      refine sound.modify (fun asked => ?_) (sound.active cur) ?_
      · obtain ⟨delayed, busy⟩ := sound.asked cur asked
        exact ⟨(ThreadInfo.tiClrEvents_delayed _).trans delayed, busy⟩
      · simpa only [ThreadInfo.tiClrEvents_delayed] using sound.away cur
  | create t thr =>
      exact sound.create done
  | change t thr =>
      rw [machineNext, Machine.change] at done
      split at done
      · cases done
      case h_2 old found =>
        split at done
        case isFalse => cases done
        case isTrue same =>
          cases done
          refine sound.relabel (fun other => ?_) rfl
          refine System.resumeOf_setThread ?_ other
          rw [System.resumeOf, found, Option.map_some, same]

end DispatchSound

/-! ## The loops end -/

section Turns

open Machine

variable {m after : Machine}
variable {cur prev next t : Nat}

/-- A thread whose flag was cleared has its loops left. -/
theorem ThreadView.weight_of_clear
    {view : ThreadView}
    (clear : view.info.tiDispatchDelayed = false) :
    view.weight = view.loops := by
  simp [weight, clear]

/-- No thread but the one that leaves has anything more to do. -/
theorem Machine.Switched.weight_eq
    {view : ThreadView}
    (switched : Switched m prev next view after)
    (other : t ≠ prev) :
    (after.views t).weight = (m.views t).weight := by
  by_cases isNext : t = next
  · subst isNext
    cases switched.arrived with
    | first place same => rw [same]
    | back place same =>
        rw [same]
        rfl
  · rw [switched.others t other isNext]

/-- The call of a thread whose flag is set takes one from what it has to do. -/
theorem Machine.Scheduled.weight_lt
    (scheduled : Scheduled m prev after)
    (preempts : (m.views prev).info.preempts = true)
    (waits : m.requeues = false) :
    (∀ t, (after.views t).weight ≤ (m.views t).weight) ∧
      (after.views prev).weight < (m.views prev).weight := by
  simp only [ThreadInfo.preempts, Bool.and_eq_true,
    Bool.not_eq_eq_eq_not, Bool.not_true] at preempts
  obtain ⟨delayed, enabled⟩ := preempts
  have before : (m.views prev).weight = 1 + (m.views prev).loops := by
    simp [ThreadView.weight, delayed]
  have less : (after.views prev).weight = (m.views prev).loops ∧
      ∀ t, t ≠ prev → (after.views t).weight = (m.views t).weight := by
    cases scheduled with
    | disabled isDisabled =>
        rw [enabled] at isDisabled
        cases isDisabled
    | stayed _ _ _ views =>
        rw [views, Function.update_self]
        refine ⟨ThreadView.weight_of_clear
          (ThreadInfo.tiClrDelayDispatch_delayed _), fun t other => ?_⟩
        rw [Function.update_of_ne other]
    | switched _ next again requeued switched =>
        have notAgain : again = false := by
          cases again with
          | false => rfl
          | true =>
              rw [waits] at requeued
              exact absurd (requeued rfl) nofun
        subst notAgain
        refine ⟨?_, fun t other => switched.weight_eq other⟩
        rw [switched.away]
        exact ThreadView.weight_of_clear
          (ThreadInfo.tiClrDelayDispatch_delayed _)
  refine ⟨fun t => ?_, by omega⟩
  by_cases same : t = prev
  · subst same
    omega
  · exact (less.2 t same).le

/-- A turn takes one from what some thread has to do. -/
theorem turn_weight
    (stepped : Guarded SwitchedToWait (StepOf machineNext) m .turn after) :
    ∃ cur,
      (∀ t, (after.views t).weight ≤ (m.views t).weight) ∧
        (after.views cur).weight < (m.views cur).weight := by
  obtain ⟨waits, done⟩ := stepped
  obtain ⟨cur, current, looping, rfl | ⟨goesOn, called⟩⟩ :=
    delayDispatchTurn_cases done
  · have less : ((m.modify cur (fun view =>
        { view with loops := view.loops - 1 })).views cur).weight <
          (m.views cur).weight := by
      rw [modify_self]
      simp only [ThreadView.weight]
      omega
    refine ⟨cur, fun t => ?_, less⟩
    by_cases same : t = cur
    · exact same ▸ less.le
    · rw [modify_of_ne same]
  · refine ⟨cur, (schedSchedule_cases called current).weight_lt goesOn.2 ?_⟩
    exact waits (by simp [schedules, current, looping, goesOn])

/-- Turns alone end with what the threads have to do. -/
theorem turns_bounded
    {made : List Nat}
    {turns : List MachineAction}
    (rest : ∀ t, t ∉ made → (m.views t).weight = 0)
    (allTurns : ∀ action ∈ turns, action = .turn)
    (run : Run (Guarded SwitchedToWait (StepOf machineNext)) m turns after) :
    turns.length + (made.map fun t => (after.views t).weight).sum ≤
        (made.map fun t => (m.views t).weight).sum ∧
      ∀ t, t ∉ made → (after.views t).weight = 0 := by
  induction run with
  | nil => exact ⟨by simp, rest⟩
  | snoc earlier last inductionHypothesis =>
      obtain ⟨bounded, still⟩ := inductionHypothesis
        fun action member => allTurns action (List.mem_append_left _ member)
      obtain rfl := allTurns _ (List.mem_append_right _ List.mem_cons_self)
      obtain ⟨cur, less, smaller⟩ := turn_weight last
      have inMade : cur ∈ made := by
        by_contra outside
        rw [still cur outside] at smaller
        exact Nat.not_lt_zero _ smaller
      have sums := List.sum_lt_sum _ _ (fun t _ => less t)
        ⟨cur, inMade, smaller⟩
      refine ⟨?_, fun t outside => ?_⟩
      · rw [List.length_append, List.length_singleton]
        omega
      · exact Nat.le_zero.mp ((less t).trans_eq (still t outside))

end Turns

/--
In every run in which nobody is switched away who still runs, dispatches are
made when they are due, and the loops of delayed dispatch end.
-/
theorem dispatchRight_of_run
    {cpu idle : Nat}
    {actions : List MachineAction}
    {m : Machine}
    (run :
      Run (Guarded SwitchedToWait (StepOf machineNext)) (machineInit cpu idle)
        actions m) :
    DispatchRight (Guarded SwitchedToWait (StepOf machineNext)) m := by
  have sound : DispatchSound [] m :=
    run.invariant (DispatchSound.initial cpu idle)
      fun sound stepped => sound.step stepped
  obtain ⟨made, rest⟩ := sound.finite
  refine ⟨sound.enabled, fun t asked => (sound.asked t asked).2 nofun,
    sound.resumed, (made.map fun t => (m.views t).weight).sum,
    fun turns after allTurns later => ?_⟩
  exact Nat.le_of_add_right_le (turns_bounded rest allTurns later).1

/--
The idle thread switches to a thread that is made, which blocks; then a
dispatch is asked for while the idle thread is busy.
-/
def blockedThread : List MachineAction :=
  [.create 1 (newThread 130), .schedThreadAdd 1, .delayDispatch, .turn,
    .change 1
      { newThread 130 with state := .wait, resume := .rv64ReturnFromTrap },
    .schedSchedule, .turn, .incPreempt, .incIntr, .setDelayDispatch 0,
    .schedSchedule, .decIntr, .decPreempt]

theorem dispatchRight_blockedThread :
    ∃ m,
      execute (guardNext SwitchedToWait machineNext) (machineInit 0 0)
          blockedThread = some m ∧
        m.dispatches.length = 3 ∧ m.resumptions = [⟨0, false, false⟩] ∧
        DispatchRight (Guarded SwitchedToWait (StepOf machineNext)) m := by
  obtain ⟨m, executed⟩ : ∃ m,
      execute (guardNext SwitchedToWait machineNext) (machineInit 0 0)
        blockedThread = some m :=
    Option.isSome_iff_exists.mp (by decide +kernel)
  have facts :
      (execute (guardNext SwitchedToWait machineNext) (machineInit 0 0)
        blockedThread).map
          (fun m => (m.dispatches.length, m.resumptions)) =
        some (3, [⟨0, false, false⟩]) := by
    decide +kernel
  rw [executed, Option.map_some, Option.some.injEq, Prod.mk.injEq] at facts
  exact ⟨m, executed, facts.1, facts.2,
    dispatchRight_of_run (Run.guarded_of_execute executed)⟩

/--
Two threads that were switched away before run in turn; each asks for one
dispatch of itself and enters its loop.
-/
def twoRunning : List MachineAction :=
  [.create 1 (newThread 130), .create 2 (newThread 130), .schedThreadAdd 1,
    .schedThreadAdd 2, .schedSchedule,
    .change 1 { newThread 130 with state := .wait }, .schedSchedule,
    .change 1
      { newThread 130 with state := .runable, resume := .afterThreadSwitch },
    .schedThreadAdd 1, .change 2 { newThread 130 with state := .wait },
    .schedSchedule,
    .change 2
      { newThread 130 with state := .runable, resume := .afterThreadSwitch },
    .schedThreadAdd 2, .delayDispatch, .turn, .setDelayDispatch 2,
    .delayDispatch]

/-- What the CPU runs, what can run, and the two threads. -/
structure Observation where
  current : List Nat
  que : List Nat
  first : ThreadView
  second : ThreadView
  back : Option Resumption
deriving Repr, DecidableEq

def observe (m : Machine) : Observation where
  current := m.sys.current
  que := m.sys.que 130
  first := m.views 1
  second := m.views 2
  back := m.resumptions.getLast?

/-- The first thread came back, with its flag set; the second one can run. -/
def pingPong : Observation where
  current := [1]
  que := [2]
  first := ⟨⟨0, 0, false, tiDispatchDelayed, 0⟩, 1, false, false, false⟩
  second := ⟨⟨0, 0, true, tiDispatchDelayed, 0⟩, 1, false, false, false⟩
  back := some ⟨1, true, false⟩

/--
The threads come back with their own flags set, though no dispatch was asked of
them since they left, and switch to each other in their loops for ever.
-/
theorem dispatch_asked_of_itself :
    (execute machineNext (machineInit 0 0)
        (twoRunning ++ [.turn])).map observe = some pingPong ∧
    (execute machineNext (machineInit 0 0)
        (twoRunning ++ [.turn, .turn, .turn])).map observe =
      some pingPong ∧
    ∃ actions m,
      Run (StepOf machineNext) (machineInit 0 0) actions m ∧
        ¬ DispatchRight (StepOf machineNext) m := by
  refine ⟨by decide +kernel, by decide +kernel, twoRunning ++ [.turn], ?_⟩
  obtain ⟨m, executed⟩ : ∃ m,
      execute machineNext (machineInit 0 0)
        (twoRunning ++ [.turn]) = some m :=
    Option.isSome_iff_exists.mp (by decide +kernel)
  have last :
      (execute machineNext (machineInit 0 0)
        (twoRunning ++ [.turn])).map (·.resumptions.getLast?) =
        some (some ⟨1, true, false⟩) := by
    decide +kernel
  rw [executed, Option.map_some, Option.some.injEq] at last
  refine ⟨m, Run.of_execute executed, fun right => ?_⟩
  exact absurd (right.resumed _ (List.mem_of_getLast? last) rfl) nofun

end RiscvWorkshop.Sched
