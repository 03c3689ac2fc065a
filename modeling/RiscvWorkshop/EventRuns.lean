import Mathlib
import RiscvWorkshop.Run
import RiscvWorkshop.ThreadInfo
import RiscvWorkshop.DispatchRuns

namespace RiscvWorkshop.Sched

open ThreadWait Machine

/-!
# Who gets an event

The function that sets events for a thread writes them into the information of
its caller, so that the thread that was meant gets none and the caller gets one
that it was not sent.
-/

/-- A thread sees an event exactly when one was set for it. -/
def EventsRight (m : Machine) : Prop :=
  ∀ t, (m.views t).info.tiHasEvents = (m.views t).addressed

/--
Events are set for the caller itself, or for a thread that has one while the
caller has one too.
-/
def EventsForCaller (m : Machine) : MachineAction → Prop
  | .setEvents ti =>
      ∀ cur ∈ m.sys.current,
        ti = cur ∨
          ((m.views ti).info.tiHasEvents = true ∧
            (m.views cur).info.tiHasEvents = true)
  | .incPreempt => True
  | .decPreempt => True
  | .incIntr => True
  | .decIntr => True
  | .setDelayDispatch _ => True
  | .schedThreadAdd _ => True
  | .schedSchedule => True
  | .delayDispatch => True
  | .turn => True
  | .clrEvents => True
  | .create _ _ => True
  | .change _ _ => True

instance (m : Machine) : ∀ action, Decidable (EventsForCaller m action)
  | .setEvents _ => inferInstanceAs (Decidable (∀ cur ∈ _, _ ∨ _ ∧ _))
  | .incPreempt => inferInstanceAs (Decidable True)
  | .decPreempt => inferInstanceAs (Decidable True)
  | .incIntr => inferInstanceAs (Decidable True)
  | .decIntr => inferInstanceAs (Decidable True)
  | .setDelayDispatch _ => inferInstanceAs (Decidable True)
  | .schedThreadAdd _ => inferInstanceAs (Decidable True)
  | .schedSchedule => inferInstanceAs (Decidable True)
  | .delayDispatch => inferInstanceAs (Decidable True)
  | .turn => inferInstanceAs (Decidable True)
  | .clrEvents => inferInstanceAs (Decidable True)
  | .create _ _ => inferInstanceAs (Decidable True)
  | .change _ _ => inferInstanceAs (Decidable True)

section Events

variable {m after : Machine}
variable {cur prev next t : Nat}

/-- The events of a thread, and those that were set for it. -/
def ThreadView.events (view : ThreadView) : Bool × Bool :=
  (view.info.tiHasEvents, view.addressed)

@[simp] theorem ThreadView.events_request
    (view : ThreadView) :
    view.request.events = view.events := by
  simp [events, request]

@[simp] theorem ThreadView.events_schedule
    (view : ThreadView) :
    view.schedule.events = view.events :=
  congrArg (·, view.addressed) (ThreadInfo.tiClrDelayDispatch_events _)

/-- No event is set or cleared. -/
def SameEvents (m after : Machine) : Prop :=
  ∀ t, (after.views t).events = (m.views t).events

theorem SameEvents.right
    (same : SameEvents m after) :
    EventsRight after ↔ EventsRight m := by
  refine forall_congr' fun t => ?_
  have both := same t
  rw [ThreadView.events, ThreadView.events, Prod.mk.injEq] at both
  rw [both.1, both.2]

/-- What belongs to a thread is rewritten but for its events. -/
theorem sameEvents_modify
    {change : ThreadView → ThreadView}
    (keeps : (change (m.views t)).events = (m.views t).events) :
    SameEvents m (m.modify t change) := by
  intro other
  by_cases same : other = t
  · subst same
    rw [modify_self, keeps]
  · rw [modify_of_ne same]

/-- A switch leaves the events as they are. -/
theorem Machine.Switched.sameEvents
    {view : ThreadView}
    (switched : Switched m prev next view after)
    (keeps : view.events = (m.views prev).events) :
    SameEvents m after := by
  intro t
  by_cases isPrev : t = prev
  · subst isPrev
    rw [switched.away]
    exact keeps
  · by_cases isNext : t = next
    · subst isNext
      cases switched.arrived with
      | first place same => rw [same]
      | back place same =>
          rw [same]
          rfl
    · rw [switched.others t isPrev isNext]

/-- The scheduler leaves the events as they are. -/
theorem schedSchedule_sameEvents
    (done : m.schedSchedule = some after) :
    SameEvents m after := by
  obtain ⟨cur, current, -⟩ := byCurrent_eq_some done
  cases schedSchedule_cases done current with
  | disabled _ asked =>
      subst asked
      exact sameEvents_modify (ThreadView.events_request _)
  | stayed _ _ _ views =>
      intro t
      by_cases same : t = cur
      · subst same
        rw [views, Function.update_self]
        exact ThreadView.events_schedule _
      · rw [views, Function.update_of_ne same]
  | switched _ next again _ switched =>
      refine switched.sameEvents ?_
      cases again <;> simp

/-- A decrement leaves the events as they are. -/
theorem decrement_sameEvents
    {dec : ThreadInfo → Option ThreadInfo}
    (keeps : ∀ {info less}, dec info = some less → less.flags = info.flags)
    (done : m.decrement dec = some after) :
    SameEvents m after := by
  obtain ⟨cur, current, done⟩ := byCurrent_eq_some done
  split at done
  · cases done
  case h_2 info decremented =>
    have less : SameEvents m (m.modify cur ({ · with info })) := by
      refine sameEvents_modify ?_
      rw [ThreadView.events, ThreadView.events, ThreadInfo.tiHasEvents,
        keeps decremented]
      rfl
    rw [preemptDispatch] at done
    split at done
    · exact fun t => (schedSchedule_sameEvents done t).trans (less t)
    · cases done
      exact less

/-- What belongs to a thread after that of another was rewritten. -/
theorem modify_apply
    (m : Machine)
    (t other : Nat)
    (change : ThreadView → ThreadView) :
    (m.modify t change).views other =
      if other = t then change (m.views t) else m.views other :=
  Function.update_apply ..

/-- Setting events is right exactly for the caller, or where it adds none. -/
theorem setEvents_right_iff
    {ti : Nat}
    (right : EventsRight m)
    (done : m.tiSetEvents ti = some after) :
    EventsRight after ↔ EventsForCaller m (.setEvents ti) := by
  obtain ⟨cur, current, done⟩ := byCurrent_eq_some done
  cases done
  have flag : ∀ t, (((m.modify ti ({ · with addressed := true })).modify cur
      fun view => { view with info := view.info.tiSetEvents }).views
        t).info.tiHasEvents =
      (decide (t = cur) || (m.views t).info.tiHasEvents) := by
    intro t
    simp only [modify_apply]
    split_ifs <;> simp_all
  have addressed : ∀ t, (((m.modify ti ({ · with addressed := true })).modify cur
      fun view => { view with info := view.info.tiSetEvents }).views
        t).addressed = (decide (t = ti) || (m.views t).addressed) := by
    intro t
    simp only [modify_apply]
    split_ifs <;> simp_all
  rw [EventsForCaller, EventsRight]
  simp only [flag, addressed, current, List.mem_singleton, forall_eq, ← right _]
  constructor
  · intro all
    have atTi := all ti
    have atCur := all cur
    by_cases same : ti = cur
    · exact .inl same
    · have other : cur ≠ ti :=
        fun eq => same eq.symm
      simp [same, other] at atTi atCur
      exact .inr ⟨atTi, atCur⟩
  · intro forCaller t
    rcases forCaller with rfl | ⟨atTi, atCur⟩
    · rfl
    · by_cases isCur : t = cur <;> by_cases isTi : t = ti <;> simp_all

/-- From a right state a step leaves one exactly for events of the caller. -/
theorem step_right_iff
    {action : MachineAction}
    (right : EventsRight m)
    (stepped : StepOf machineNext m action after) :
    EventsRight after ↔ EventsForCaller m action := by
  have kept : SameEvents m after → (EventsRight after ↔ True) :=
    fun same => iff_of_true (same.right.mpr right) trivial
  rw [StepOf] at stepped
  cases action with
  | incPreempt =>
      obtain ⟨cur, current, done⟩ := byCurrent_eq_some stepped
      cases done
      exact kept (sameEvents_modify rfl)
  | incIntr =>
      obtain ⟨cur, current, done⟩ := byCurrent_eq_some stepped
      cases done
      exact kept (sameEvents_modify rfl)
  | decPreempt =>
      refine kept (decrement_sameEvents ?_ stepped)
      intro info less decremented
      rw [ThreadInfo.tiDecPreempt] at decremented
      split at decremented <;> cases decremented <;> rfl
  | decIntr =>
      refine kept (decrement_sameEvents ?_ stepped)
      intro info less decremented
      rw [ThreadInfo.tiDecIntr] at decremented
      split at decremented <;> cases decremented
      rfl
  | setDelayDispatch t =>
      cases stepped
      exact kept (sameEvents_modify (ThreadView.events_request _))
  | schedThreadAdd t =>
      obtain ⟨cur, current, done⟩ := byCurrent_eq_some stepped
      obtain ⟨sys, -, -, rfl | ⟨rfl, -⟩⟩ := schedThreadAdd_cases done
      · exact kept fun _ => rfl
      · exact kept fun t =>
          sameEvents_modify (m := { m with sys })
            (ThreadView.events_request _) t
  | schedSchedule => exact kept (schedSchedule_sameEvents stepped)
  | delayDispatch =>
      obtain ⟨cur, current, done⟩ := byCurrent_eq_some stepped
      cases done
      exact kept (sameEvents_modify rfl)
  | turn =>
      obtain ⟨cur, -, -, rfl | ⟨-, called⟩⟩ := delayDispatchTurn_cases stepped
      · exact kept (sameEvents_modify rfl)
      · exact kept (schedSchedule_sameEvents called)
  | setEvents ti => exact setEvents_right_iff right stepped
  | clrEvents =>
      obtain ⟨cur, current, done⟩ := byCurrent_eq_some stepped
      cases done
      refine iff_of_true (fun t => ?_) trivial
      simp only [modify_apply]
      split
      · exact ThreadInfo.tiClrEvents_events _
      · exact right t
  | create t thr =>
      rw [machineNext, Machine.create] at stepped
      split at stepped <;> cases stepped
      refine iff_of_true (fun other => ?_) trivial
      simp only [modify_apply]
      split
      · simp [ThreadView.fresh, ThreadInfo.tiThreadInfoInit,
          ThreadInfo.tiHasEvents]
      · exact right other
  | change t thr =>
      rw [machineNext, Machine.change] at stepped
      split at stepped
      · cases stepped
      · split at stepped <;> cases stepped
        exact kept fun _ => rfl

end Events

/-- At the start there are no events. -/
theorem eventsRight_init
    (cpu idle : Nat) :
    EventsRight (machineInit cpu idle) := by
  intro t
  simp [machineInit, ThreadView.fresh, ThreadInfo.tiThreadInfoInit,
    ThreadInfo.tiHasEvents]

/--
In every run in which events are set for the caller, or where they are pending
already, each thread sees the events that were set for it and no others.
-/
theorem eventsRight_of_run
    {cpu idle : Nat}
    {actions : List MachineAction}
    {m : Machine}
    (run :
      Run (Guarded EventsForCaller (StepOf machineNext)) (machineInit cpu idle)
        actions m) :
    EventsRight m :=
  run.invariant (eventsRight_init cpu idle)
    fun right stepped => (step_right_iff right stepped.2).mpr stepped.1

/-- A thread sets events for itself, and leaves its loop for them. -/
def ownEvents : List MachineAction :=
  [.create 1 (newThread 130), .schedThreadAdd 1, .delayDispatch, .turn,
    .setEvents 1, .setDelayDispatch 1, .delayDispatch, .turn]

theorem eventsRight_ownEvents :
    ∃ m,
      execute (guardNext EventsForCaller machineNext) (machineInit 0 0)
          ownEvents = some m ∧
        m.sys.current = [1] ∧ (m.views 1).info.tiHasEvents = true ∧
        EventsRight m := by
  obtain ⟨m, executed⟩ : ∃ m,
      execute (guardNext EventsForCaller machineNext) (machineInit 0 0)
        ownEvents = some m :=
    Option.isSome_iff_exists.mp (by decide +kernel)
  have facts :
      (execute (guardNext EventsForCaller machineNext) (machineInit 0 0)
        ownEvents).map
          (fun m => (m.sys.current, (m.views 1).info.tiHasEvents)) =
        some ([1], true) := by
    decide +kernel
  rw [executed, Option.map_some, Option.some.injEq, Prod.mk.injEq] at facts
  exact ⟨m, executed, facts.1, facts.2,
    eventsRight_of_run (Run.guarded_of_execute executed)⟩

/-- The idle thread sets events for another, and has them itself. -/
theorem events_set_for_caller :
    (execute machineNext (machineInit 0 0)
        [.create 1 (newThread 130), .setEvents 1]).map
        (fun m => (m.sys.current, (m.views 0).info.tiHasEvents,
          (m.views 0).addressed, (m.views 1).info.tiHasEvents,
          (m.views 1).addressed)) =
      some ([0], true, false, false, true) ∧
    ∃ actions m,
      Run (StepOf machineNext) (machineInit 0 0) actions m ∧
        ¬ EventsRight m := by
  refine ⟨by decide +kernel, [.create 1 (newThread 130), .setEvents 1], ?_⟩
  obtain ⟨m, executed⟩ : ∃ m,
      execute machineNext (machineInit 0 0)
        [.create 1 (newThread 130), .setEvents 1] = some m :=
    Option.isSome_iff_exists.mp (by decide +kernel)
  have facts :
      (execute machineNext (machineInit 0 0)
        [.create 1 (newThread 130), .setEvents 1]).map
          (fun m => ((m.views 1).info.tiHasEvents, (m.views 1).addressed)) =
        some (false, true) := by
    decide +kernel
  rw [executed, Option.map_some, Option.some.injEq, Prod.mk.injEq] at facts
  refine ⟨m, Run.of_execute executed, fun right => ?_⟩
  have same := right 1
  rw [facts.1, facts.2] at same
  cases same

end RiscvWorkshop.Sched
