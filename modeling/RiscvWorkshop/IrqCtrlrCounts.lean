import Mathlib
import RiscvWorkshop.Run
import RiscvWorkshop.IrqCtrlrs
import RiscvWorkshop.IrqCtrlrRuns

namespace RiscvWorkshop.IrqCtrlrs

open Irq SearchTree

/-!
# The count of a controller's handlers

The count is set when the controller is registered and lowered when a handler
leaves, but no registration of a handler raises it.
-/

section Counts

variable {Hw : Type}
variable {rebalancing : Rebalancing Nat}

/-- The handlers registered on the lines that a controller serves. -/
def handlersOn
    (info : CtrlrInfo Hw)
    (address : Nat) : Nat :=
  ∑ irq ∈ (Finset.range nrIrqs).filter (Serves info · address),
    (info.irqs irq).handlers.length

/--
Counts are right, they decide whether a controller can leave, and every line
with a handler has a registered controller.
-/
structure HandlersCounted
    (info : CtrlrInfo Hw) : Prop where
  counted :
    ∀ address ∈ info.ctrlrQue,
      (info.nrHandlers address).toInt = handlersOn info address
  removed :
    ∀ address ∈ info.ctrlrQue,
      address ∉ (irqUnregisterCtrlr info address).ctrlrQue ↔
        handlersOn info address = 0
  linked :
    ∀ irq, (info.irqs irq).handlers ≠ [] →
      ∃ address ∈ info.ctrlrQue, (info.irqs irq).ctrlr = some address

/-- The call does not add a handler to a line: no controller takes the line. -/
def AddsNone
    (info : CtrlrInfo Hw) :
    CtrlrCall Hw → Prop
  | .registerHandler irq attr prio _ _ =>
      irq < nrIrqs →
        ∀ address,
          lookupCtrlr info irq = some (some address) →
            ∃ code,
              (info.ctrlrs address).configIrq info.hw irq attr prio =
                .error code
  | _ => True

/-- No handler was ever registered, and no registered controller counts one. -/
structure NoneAdded
    (info : CtrlrInfo Hw) : Prop where
  nodup : info.ctrlrQue.Nodup
  uncounted : ∀ address ∈ info.ctrlrQue, info.nrHandlers address = 0
  noHandlers : ∀ irq, (info.irqs irq).handlers = []
  noCtrlr : ∀ irq, (info.irqs irq).ctrlr = none

theorem NoneAdded.handlersOn_eq
    {info : CtrlrInfo Hw}
    (none : NoneAdded info)
    (address : Nat) :
    handlersOn info address = 0 := by
  rw [handlersOn]
  refine Finset.sum_eq_zero fun irq _ => ?_
  rw [none.noHandlers irq, List.length_nil]

/-- A line with a handler is counted at the controller that serves it. -/
theorem handlersOn_pos
    {info : CtrlrInfo Hw}
    {irq address : Nat}
    (valid : irq < nrIrqs)
    (serves : Serves info irq address)
    (hasHandlers : (info.irqs irq).handlers ≠ []) :
    0 < handlersOn info address := by
  calc
    0 < (info.irqs irq).handlers.length :=
      List.length_pos_iff.mpr hasHandlers
    _ ≤ handlersOn info address :=
      Finset.single_le_sum
        (f := fun irq => (info.irqs irq).handlers.length)
        (fun _ _ => Nat.zero_le _)
        (Finset.mem_filter.mpr ⟨Finset.mem_range.mpr valid, serves⟩)

/-- Where the count is right, a controller that counts none serves no handler. -/
theorem HandlersCounted.handlers_eq_nil
    {info : CtrlrInfo Hw}
    {irq address : Nat}
    (counted : HandlersCounted info)
    (member : address ∈ info.ctrlrQue)
    (uncounted : info.nrHandlers address = 0)
    (valid : irq < nrIrqs)
    (serves : Serves info irq address) :
    (info.irqs irq).handlers = [] := by
  by_contra hasHandlers
  have positive := handlersOn_pos valid serves hasHandlers
  have zero := counted.counted address member
  rw [uncounted] at zero
  simp only [BitVec.ofNat_eq_ofNat, BitVec.toInt_zero] at zero
  omega

/-- Without handlers every count is right. -/
theorem NoneAdded.counted
    {info : CtrlrInfo Hw}
    (none : NoneAdded info) :
    HandlersCounted info := by
  refine ⟨?_, ?_, ?_⟩
  · intro address member
    rw [none.uncounted address member, none.handlersOn_eq]
    rfl
  · intro address member
    rw [iff_true_right (none.handlersOn_eq address), irqUnregisterCtrlr,
      none.uncounted address member, if_neg (by decide), if_pos member]
    exact none.nodup.not_mem_erase
  · intro irq hasHandlers
    exact absurd (none.noHandlers irq) hasHandlers

/-- A registration on a line without handlers fails or adds the first one. -/
theorem irqRegisterHandler_cases
    {info after : CtrlrInfo Hw}
    {irq attr prio handler privateInfo : Nat}
    {result : Except Errno Unit}
    (empty : (info.irqs irq).handlers = [])
    (registered :
      irqRegisterHandler rebalancing info irq attr prio handler privateInfo =
        some (result, after)) :
    after.nrHandlers = info.nrHandlers ∧
      ((after.irqs = info.irqs ∧
          AddsNone info
            (.registerHandler irq attr prio handler privateInfo)) ∨
        ∃ address hw,
          irq < nrIrqs ∧
            lookupCtrlr info irq = some (some address) ∧
            (info.ctrlrs address).configIrq info.hw irq attr prio = .ok hw ∧
            (after.irqs irq).handlers = [{ handler, privateInfo }]) := by
  rw [irqRegisterHandler] at registered
  by_cases invalid : irq ≥ nrIrqs
  · rw [if_pos invalid] at registered
    cases registered
    exact ⟨rfl, .inl ⟨rfl, fun valid => absurd invalid (by omega)⟩⟩
  · rw [if_neg invalid] at registered
    cases found : lookupCtrlr info irq with
    | none =>
        simp only [found] at registered
        cases registered
    | some answer =>
        cases answer with
        | none =>
            simp only [found] at registered
            cases registered
            refine ⟨rfl, .inl ⟨rfl, fun _ address other => ?_⟩⟩
            rw [found] at other
            cases other
        | some address =>
            simp only [found, empty, ne_eq, not_true_eq_false,
              if_false] at registered
            cases inserted : insertLine rebalancing info irq with
            | none =>
                simp only [inserted] at registered
                cases registered
            | some prioQue =>
                simp only [inserted] at registered
                cases configured :
                    (info.ctrlrs address).configIrq info.hw irq attr prio with
                | error code =>
                    simp only [configured] at registered
                    cases registered
                    refine ⟨rfl, .inl ⟨rfl, fun _ other otherFound => ?_⟩⟩
                    rw [found] at otherFound
                    cases otherFound
                    exact ⟨code, configured⟩
                | ok hw =>
                    simp only [configured] at registered
                    cases registered
                    refine ⟨rfl, .inr
                      ⟨address, hw, by omega, rfl, configured, ?_⟩⟩
                    simp [addHandler, CtrlrInfo.setLine]

/-- A call that adds no handler leaves none. -/
theorem NoneAdded.step
    {info after : CtrlrInfo Hw}
    {call : CtrlrCall Hw}
    (none : NoneAdded info)
    (addsNone : AddsNone info call)
    (stepped : ctrlrNext rebalancing info call = some after) :
    NoneAdded after := by
  cases call with
  | fillCtrlr address ctrlr =>
      simp only [ctrlrNext] at stepped
      split_ifs at stepped
      cases stepped
      exact ⟨none.nodup, none.uncounted, none.noHandlers, none.noCtrlr⟩
  | registerCtrlr address =>
      cases stepped
      rcases irqRegisterCtrlr_cases info address with
        kept | ⟨-, fresh, -, hw, queued⟩
      · rw [kept]
        exact none
      · rw [queued]
        refine ⟨?_, ?_, none.noHandlers, none.noCtrlr⟩
        · refine List.nodup_append.mpr
            ⟨none.nodup, List.nodup_singleton _, ?_⟩
          intro one member other isNew
          rw [List.mem_singleton.mp isNew]
          rintro rfl
          exact fresh member
        · intro one member
          rcases List.mem_append.mp member with member | isNew
          · have different : one ≠ address := fun same => fresh (same ▸ member)
            simp only [Function.update_of_ne different]
            exact none.uncounted one member
          · rw [List.mem_singleton.mp isNew]
            simp only [Function.update_self]
  | unregisterCtrlr address =>
      cases stepped
      rcases irqUnregisterCtrlr_cases info address with
        kept | ⟨_, hw, removed⟩
      · rw [kept]
        exact none
      · rw [removed]
        refine ⟨none.nodup.erase _, ?_, none.noHandlers, none.noCtrlr⟩
        intro one member
        exact none.uncounted one (List.mem_of_mem_erase member)
  | registerHandler irq attr prio handler privateInfo =>
      obtain ⟨⟨result, registeredInfo⟩, registered, shape⟩ :=
        Option.map_eq_some_iff.mp stepped
      cases shape
      have same := irqRegisterHandler_sameCtrlrs registered
      obtain ⟨sameCounts,
          ⟨sameLines, -⟩ | ⟨address, hw, valid, found, taken, -⟩⟩ :=
        irqRegisterHandler_cases (none.noHandlers irq) registered
      · refine ⟨?_, ?_, ?_, ?_⟩
        · rw [same.ctrlrQue]
          exact none.nodup
        · rw [same.ctrlrQue, sameCounts]
          exact none.uncounted
        · rw [sameLines]
          exact none.noHandlers
        · rw [sameLines]
          exact none.noCtrlr
      · obtain ⟨code, refused⟩ := addsNone valid address found
        rw [taken] at refused
        cases refused
  | unregisterHandler irq handler =>
      obtain ⟨⟨result, unregisteredInfo⟩, unregistered, shape⟩ :=
        Option.map_eq_some_iff.mp stepped
      cases shape
      simp only [irqUnregisterHandler, none.noCtrlr irq] at unregistered
      split_ifs at unregistered
      cases unregistered
      exact none

/-- The first handler that is added is not counted. -/
theorem NoneAdded.not_counted
    {info after : CtrlrInfo Hw}
    {call : CtrlrCall Hw}
    (none : NoneAdded info)
    (adds : ¬ AddsNone info call)
    (stepped : ctrlrNext rebalancing info call = some after) :
    ¬ HandlersCounted after := by
  intro counted
  cases call with
  | registerHandler irq attr prio handler privateInfo =>
      obtain ⟨⟨result, registeredInfo⟩, registered, shape⟩ :=
        Option.map_eq_some_iff.mp stepped
      cases shape
      have same := irqRegisterHandler_sameCtrlrs registered
      obtain ⟨sameCounts,
          ⟨-, addsNone⟩ | ⟨address, hw, valid, found, -, handlers⟩⟩ :=
        irqRegisterHandler_cases (none.noHandlers irq) registered
      · exact adds addsNone
      · have member : address ∈ info.ctrlrQue :=
          List.mem_of_find?_eq_some (findCtrlr_eq_find found).symm
        have serves : Serves registeredInfo irq address := by
          rw [Serves, same.ctrlrs, ← Serves]
          simpa using List.find?_some (findCtrlr_eq_find found).symm
        have empty : (registeredInfo.irqs irq).handlers = [] :=
          counted.handlers_eq_nil (by rw [same.ctrlrQue]; exact member)
            (by rw [sameCounts]; exact none.uncounted address member) valid
            serves
        rw [handlers] at empty
        cases empty
  | fillCtrlr address ctrlr =>
      exact adds trivial
  | registerCtrlr address =>
      exact adds trivial
  | unregisterCtrlr address =>
      exact adds trivial
  | unregisterHandler irq handler =>
      exact adds trivial

/--
In a run in which no call adds a handler everything is counted, and the next
call keeps that exactly when it adds none either.
-/
theorem handlersCounted_of_runs
    {ctrlrs : Nat → Ctrlr Hw}
    {hw : Hw}
    {calls : List (CtrlrCall Hw)}
    {final : CtrlrInfo Hw}
    (run :
      Run (Guarded AddsNone (StepOf (ctrlrNext rebalancing)))
        (irqInit ctrlrs hw) calls final) :
    HandlersCounted final ∧
      ∀ call after,
        ctrlrNext rebalancing final call = some after →
          (HandlersCounted after ↔ AddsNone final call) := by
  have none : NoneAdded final := by
    refine run.invariant ⟨List.nodup_nil, ?_, fun _ => rfl, fun _ => rfl⟩
      fun none stepped => none.step stepped.1 stepped.2
    intro address member
    cases member
  refine ⟨none.counted, ?_⟩
  intro call after stepped
  constructor
  · intro counted
    by_contra adds
    exact none.not_counted adds stepped counted
  · intro addsNone
    exact (none.step addsNone stepped).counted

end Counts

/-- The PLIC is registered, and number 1 gets a handler. -/
def addFirst : List (CtrlrCall Unit) :=
  [.registerCtrlr 0, .registerHandler 1 0 7 100 200]

/-- A controller comes and goes while its lines have no handlers. -/
theorem handlersCounted_of_runs_noHandlers :
    ∃ final,
      Run (Guarded AddsNone (StepOf (ctrlrNext (Rebalancing.never Nat))))
          (irqInit boardCtrlrs ()) [.registerCtrlr 0, .unregisterCtrlr 0]
          final ∧
        final.ctrlrQue = [] ∧
        HandlersCounted final := by
  have run :
      Run (Guarded AddsNone (StepOf (ctrlrNext (Rebalancing.never Nat))))
        (irqInit boardCtrlrs ()) [.registerCtrlr 0, .unregisterCtrlr 0] _ :=
    .cons ⟨trivial, rfl⟩ (.cons ⟨trivial, rfl⟩ .nil)
  exact ⟨_, run, rfl, (handlersCounted_of_runs run).1⟩

/--
A controller with a handler counts none and leaves the queue, and the line
still names it.
-/
theorem handlers_not_counted :
    (∃ final,
      Run (StepOf (ctrlrNext (Rebalancing.never Nat)))
          (irqInit boardCtrlrs ()) addFirst final ∧
        final.nrHandlers 0 = 0 ∧
        (final.irqs 1).handlers ≠ [] ∧
        ¬ HandlersCounted final) ∧
      ∃ final,
        Run (StepOf (ctrlrNext (Rebalancing.never Nat)))
            (irqInit boardCtrlrs ()) (addFirst ++ [.unregisterCtrlr 0])
            final ∧
          final.ctrlrQue = [] ∧
          (final.irqs 1).handlers ≠ [] ∧
          (final.irqs 1).ctrlr = some 0 ∧
          ¬ HandlersCounted final := by
  refine ⟨⟨_, Run.of_execute rfl, rfl, by decide, ?_⟩,
    _, Run.of_execute rfl, rfl, by decide, rfl, ?_⟩
  · intro counted
    have member : 0 ∈ [0] := by decide
    have served : 0 ≤ 1 ∧ 1 < 32 := by decide
    have empty := counted.handlers_eq_nil member rfl (by decide) served
    cases empty
  · intro counted
    obtain ⟨address, member, -⟩ := counted.linked 1 (by decide)
    cases member

end RiscvWorkshop.IrqCtrlrs
