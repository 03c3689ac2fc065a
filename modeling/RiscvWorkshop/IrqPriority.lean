import Mathlib
import RiscvWorkshop.IrqScan

namespace RiscvWorkshop.Irq

open SearchTree

/-!
# Which pending line is dispatched

The scan of the lines runs from the right end of the tree, so it meets the
greatest priority first when the priorities do not decrease from left to
right.  A registration puts the line in the place of its former priority and
writes the new one afterwards; the order survives only where this place fits.
-/
namespace IrqInfo

variable {Hw : Type}

/-- A priority between those of the lines on both sides of a place. -/
def Between
    (info : IrqInfo Hw)
    (prio : Nat)
    (sides : List Nat × List Nat) : Prop :=
  (∀ line ∈ sides.1, info.prioOf line ≤ prio) ∧
    ∀ line ∈ sides.2, prio ≤ info.prioOf line

instance
    (info : IrqInfo Hw)
    (prio : Nat)
    (sides : List Nat × List Nat) :
    Decidable (info.Between prio sides) :=
  inferInstanceAs (Decidable (_ ∧ _))

end IrqInfo

/--
A registration that brings a line into the tree compares it with no line of
its former priority, and leaves it between lines of at most and at least its
new priority.
-/
def RegisteredInOrder
    {Hw : Type}
    (info : IrqInfo Hw) : IrqCall Hw → Prop
  | .register irq attr prio _ _ =>
      irq < nrIrqs →
      ¬ info.Registered irq →
      ∀ ctrlr ∈ info.ctrlrFor irq,
        ∃ sides ∈ info.placeOf irq,
          (ctrlr.configIrq info.hw irq attr prio).isOk →
            info.Between prio sides
  | .unregister _ _ => True
  | .handle => True
  | .device _ => True

instance
    {Hw : Type}
    (info : IrqInfo Hw) :
    ∀ call, Decidable (RegisteredInOrder info call)
  | .register .. =>
      inferInstanceAs
        (Decidable (_ → ¬ _ → ∀ ctrlr ∈ _, ∃ sides ∈ _, _ → _))
  | .unregister .. => inferInstanceAs (Decidable True)
  | .handle => inferInstanceAs (Decidable True)
  | .device _ => inferInstanceAs (Decidable True)

/-- From left to right the priorities do not decrease. -/
def Sorted
    {Hw : Type}
    (info : IrqInfo Hw) : Prop :=
  info.prioQue.toList.Pairwise fun first second =>
    info.prioOf first ≤ info.prioOf second

section Changes

variable {Hw : Type}
variable (rebalancing : Rebalancing Nat)
variable (serve : Serve Hw)
variable {info after : IrqInfo Hw}

theorem SameLines.sorted
    (same : SameLines info after)
    (sorted : Sorted info) :
    Sorted after := by
  rw [Sorted, same.lines]
  refine List.Pairwise.imp ?_ sorted
  intro first second ordered
  rwa [IrqInfo.prioOf, IrqInfo.prioOf, same.prio, same.prio]

/-- A line that comes in between the lines around its new priority. -/
theorem Entered.sorted
    {irq prio : Nat}
    {before behind : List Nat}
    (entered : Entered info irq prio before behind after)
    (sound : InfoSound info)
    (sorted : Sorted info)
    (atMost : ∀ line ∈ before, info.prioOf line ≤ prio)
    (atLeast : ∀ line ∈ behind, prio ≤ info.prioOf line) :
    Sorted after := by
  have others : ∀ line ∈ before ++ behind,
      after.prioOf line = info.prioOf line := by
    intro line member
    refine prioOf_congr (entered.others line fun same => ?_)
    exact entered.fresh
      (same ▸ (sound.listed line).mp (entered.oldLines ▸ member))
  have own : after.prioOf irq = prio :=
    entered.prio
  rw [Sorted, entered.oldLines, List.pairwise_append] at sorted
  obtain ⟨inBefore, inBehind, across⟩ := sorted
  rw [Sorted, entered.lines, List.pairwise_append, List.pairwise_cons]
  refine ⟨?_, ⟨?_, ?_⟩, ?_⟩
  · refine inBefore.imp_of_mem fun first second ordered => ?_
    rwa [others _ (List.mem_append_left _ first),
      others _ (List.mem_append_left _ second)]
  · intro line member
    rw [own, others _ (List.mem_append_right _ member)]
    exact atLeast line member
  · refine inBehind.imp_of_mem fun first second ordered => ?_
    rwa [others _ (List.mem_append_right _ first),
      others _ (List.mem_append_right _ second)]
  · intro first inFirst second inSecond
    rw [others _ (List.mem_append_left _ inFirst)]
    rcases List.mem_cons.mp inSecond with same | later
    · rw [same, own]
      exact atMost first inFirst
    · rw [others _ (List.mem_append_right _ later)]
      exact across first inFirst second later

theorem Left.sorted
    {irq : Nat}
    (left : Left info irq after)
    (sound : InfoSound info)
    (sorted : Sorted info) :
    Sorted after := by
  have others : ∀ line ∈ info.prioQue.toList.erase irq,
      after.prioOf line = info.prioOf line := by
    intro line member
    exact prioOf_congr
      (left.others line (sound.nodup.mem_erase_iff.mp member).1)
  rw [Sorted, left.lines]
  refine (List.Pairwise.sublist List.erase_sublist sorted).imp_of_mem ?_
  intro first second inFirst inSecond ordered
  rwa [others _ inFirst, others _ inSecond]

/-! ## Runs -/

/-- The invariants of every state that registrations in order reach. -/
structure InfoOrdered
    {Hw : Type}
    (ctrlrQue : List (IrqCtrlr Hw))
    (info : IrqInfo Hw) : Prop where
  sound : InfoSound info
  sorted : Sorted info
  ctrlrs : info.ctrlrQue = ctrlrQue

/-- A call in order keeps the lines and their order. -/
theorem InfoOrdered.step
    {ctrlrQue : List (IrqCtrlr Hw)}
    {call : IrqCall Hw}
    (ordered : InfoOrdered ctrlrQue info)
    (stepped :
      Guarded RegisteredInOrder (StepOf (irqNext rebalancing serve)) info call
        after) :
    InfoOrdered ctrlrQue after := by
  obtain ⟨sound, sorted, ctrlrs⟩ := ordered
  obtain ⟨inOrder, called⟩ := stepped
  have soundAfter := irqNext_sound rebalancing serve sound called
  rcases irqNext_cases rebalancing serve sound called with
    same |
      ⟨irq, attr, prio, handler, privateInfo, place, ctrlr, before, behind,
        isRegister, located, found, configured, entered⟩ |
      ⟨irq, left⟩
  · exact ⟨soundAfter, same.sorted sorted, same.ctrlrQue.trans ctrlrs⟩
  · subst isRegister
    have served : info.ctrlrFor irq = some ctrlr := by
      rw [IrqInfo.ctrlrFor, located]
      exact found
    obtain ⟨sides, placed, between⟩ :=
      inOrder entered.small entered.fresh ctrlr served
    obtain ⟨atMost, atLeast⟩ := between (by rw [configured]; rfl)
    rw [entered.placed] at placed
    cases placed
    exact ⟨soundAfter, entered.sorted sound sorted atMost atLeast,
      entered.ctrlrQue.trans ctrlrs⟩
  · exact ⟨soundAfter, left.sorted sound sorted,
      left.ctrlrQue.trans ctrlrs⟩

theorem irqInit_ordered
    (ctrlrQue : List (IrqCtrlr Hw))
    (hw : Hw) :
    InfoOrdered ctrlrQue (irqInit ctrlrQue hw) := by
  refine ⟨?_, .nil, rfl⟩
  constructor <;> simp [irqInit, NodeTree.toList, IrqInfo.Registered]

/-- A new line that meets the condition is accepted with its priority. -/
def Accepts
    (info : IrqInfo Hw) : Prop :=
  ∀ irq attr prio handler privateInfo ctrlr,
    irq < nrIrqs →
    ¬ info.Registered irq →
    info.ctrlrFor irq = some ctrlr →
    (ctrlr.configIrq info.hw irq attr prio).isOk →
    RegisteredInOrder info (.register irq attr prio handler privateInfo) →
    ∃ after,
      irqRegisterHandler rebalancing info irq attr prio handler privateInfo =
        some (.ok (), after) ∧
      after.Registered irq ∧
      after.prioOf irq = prio

/-- The dispatched line is pending and of the greatest priority among these. -/
structure DispatchesGreatest
    (info : IrqInfo Hw)
    (pending : Nat → Bool)
    (found : Dispatch) : Prop where
  registered : info.Registered found.irq
  isPending : pending found.irq = true
  greatest : ∀ irq,
    info.Registered irq →
    pending irq = true →
    info.prioOf irq ≤ info.prioOf found.irq
  handlers : found.FirstHandlers (info.irqs found.irq).handlers

theorem accepts_of_place :
    Accepts rebalancing info := by
  intro irq attr prio handler privateInfo ctrlr small fresh served accepted
    inOrder
  obtain ⟨⟨before, behind⟩, placed, -⟩ := inOrder small fresh ctrlr served
  obtain ⟨place, located, found⟩ := ctrlrFor_some served
  cases configured : ctrlr.configIrq info.hw irq attr prio with
  | error code =>
      rw [configured] at accepted
      cases accepted
  | ok hw =>
      obtain ⟨after, registered, entered, -⟩ :=
        irqRegisterHandler_fresh rebalancing handler privateInfo small located
          found configured fresh placed
      exact ⟨after, registered, entered.registered, entered.prio⟩

/-- With the lines in order the first pending line is of greatest priority. -/
theorem irqHandleIrq_greatest
    {pending : Nat → Bool}
    {steady : Hw → Prop}
    (sound : InfoSound info)
    (sorted : Sorted info)
    (now : steady info.hw)
    (answering :
      ∀ irq, info.Registered irq → Answering info pending steady irq) :
    ∃ dispatch after,
      irqHandleIrq rebalancing serve info = some (dispatch, after) ∧
        ((dispatch = none ∧
            ∀ irq, info.Registered irq → pending irq = false) ∨
          ∃ found,
            dispatch = some found ∧
              DispatchesGreatest info pending found) := by
  have listed : ∀ irq,
      irq ∈ info.prioQue.toList.reverse ↔ info.Registered irq := by
    intro irq
    rw [List.mem_reverse, sound.listed]
  obtain ⟨dispatch, hw, scanned, result⟩ :=
    scanLines_pending rebalancing serve info.prioQue.toList.reverse info
      sound.served (fun irq member => answering irq ((listed irq).mp member))
      now
  refine ⟨dispatch, _, scanned, ?_⟩
  rcases result with
    ⟨none, quiet⟩ |
      ⟨before, behind, found, shape, split, quiet, isPending, handlers⟩
  · exact .inl ⟨none, fun irq registered =>
      quiet irq ((listed irq).mpr registered)⟩
  · have descending :
        (before ++ found.irq :: behind).Pairwise fun first second =>
          info.prioOf second ≤ info.prioOf first := by
      rw [← split, List.pairwise_reverse]
      exact sorted
    refine .inr ⟨found, shape, ?_, isPending, ?_, handlers⟩
    · exact (listed found.irq).mp (by simp [split])
    · intro irq registered irqPending
      have member := (listed irq).mpr registered
      rw [split, List.mem_append, List.mem_cons] at member
      rcases member with earlier | same | later
      · rw [quiet irq earlier] at irqPending
        cases irqPending
      · rw [same]
      · exact (List.pairwise_cons.mp
          (List.pairwise_append.mp descending).2.1).1 irq later

/-- Registrations in order keep the lines in order. -/
theorem ordered_of_run
    {ctrlrQue : List (IrqCtrlr Hw)}
    {hw : Hw}
    {calls : List (IrqCall Hw)}
    (run :
      Run (Guarded RegisteredInOrder (StepOf (irqNext rebalancing serve)))
        (irqInit ctrlrQue hw) calls info) :
    InfoOrdered ctrlrQue info :=
  run.invariant (irqInit_ordered ctrlrQue hw)
    fun ordered stepped => ordered.step rebalancing serve stepped

/--
After registrations in order, in any order with removals and interrupts, new
lines are accepted and the handlers of a pending line of the greatest priority
are called.
-/
theorem greatest_priority_dispatched
    {ctrlrQue : List (IrqCtrlr Hw)}
    {hw : Hw}
    {calls : List (IrqCall Hw)}
    (run :
      Run (Guarded RegisteredInOrder (StepOf (irqNext rebalancing serve)))
        (irqInit ctrlrQue hw) calls info) :
    Accepts rebalancing info ∧
      ∀ (pending : Nat → Bool) (steady : Hw → Prop),
        steady info.hw →
        (∀ irq, info.Registered irq → Answering info pending steady irq) →
        ∃ dispatch after,
          irqHandleIrq rebalancing serve info = some (dispatch, after) ∧
            ((dispatch = none ∧
                ∀ irq, info.Registered irq → pending irq = false) ∨
              ∃ found,
                dispatch = some found ∧
                  DispatchesGreatest info pending found) := by
  have ordered := ordered_of_run rebalancing serve run
  refine ⟨accepts_of_place rebalancing, fun pending steady now answering => ?_⟩
  exact irqHandleIrq_greatest rebalancing serve ordered.sound ordered.sorted
    now answering

end Changes

/-! ## A controller of sixty-four lines -/

/-- Lines that are pending until their interrupt is completed. -/
def levelCtrlr : IrqCtrlr (List Nat) where
  minIrq := 0
  maxIrq := 64
  configIrq := fun pending _ _ _ => .ok pending
  irqIsPending := fun pending irq _ => (decide (irq ∈ pending), pending)
  enableIrq := fun pending _ => pending
  disableIrq := fun pending _ => pending
  priMask := none
  eoi := fun pending irq => pending.erase irq

/-- Handlers that handle every interrupt. -/
def serveAll : Serve (List Nat) :=
  fun _ _ pending => (true, pending)

/-- Two lines registered in ascending order, both pending at the end. -/
def ascendingCalls : List (IrqCall (List Nat)) :=
  [.register 5 irqAttrEdge 3 100 0, .register 9 irqAttrEdge 7 200 0,
    .device [5, 9]]

/-- The controller answers by the lines that are pending. -/
theorem levelCtrlr_answering
    {info : IrqInfo (List Nat)}
    (ctrlrs : info.ctrlrQue = [levelCtrlr])
    (lines : List Nat)
    (irq : Nat) :
    Answering info (fun irq => decide (irq ∈ lines)) (· = lines) irq := by
  have only : ∀ ctrlr, info.ctrlrOf irq = some ctrlr → ctrlr = levelCtrlr := by
    intro ctrlr found
    obtain ⟨place, -, atPlace⟩ := Option.bind_eq_some_iff.mp found
    rw [ctrlrs] at atPlace
    exact List.mem_singleton.mp (List.mem_of_getElem? atPlace)
  constructor
  · rintro hw ctrlr rfl found
    rw [only ctrlr found]
    rfl
  · rintro hw ctrlr rfl found -
    rw [only ctrlr found]
    rfl

/-- The line of priority 7 is dispatched before the line of priority 3. -/
theorem greatest_priority_dispatched_ascending :
    ∃ info,
      execute (guardNext RegisteredInOrder (irqNext (Rebalancing.never Nat) serveAll))
          (irqInit [levelCtrlr] []) ascendingCalls = some info ∧
        Accepts (Rebalancing.never Nat) info ∧
        ∃ found after,
          irqHandleIrq (Rebalancing.never Nat) serveAll info = some (some found, after) ∧
            DispatchesGreatest info (fun irq => decide (irq ∈ [5, 9])) found ∧
            found.irq = 9 := by
  obtain ⟨info, executed⟩ : ∃ info,
      execute (guardNext RegisteredInOrder (irqNext (Rebalancing.never Nat) serveAll))
        (irqInit [levelCtrlr] []) ascendingCalls = some info :=
    Option.isSome_iff_exists.mp (by decide +kernel)
  have facts :
      (execute (guardNext RegisteredInOrder (irqNext (Rebalancing.never Nat) serveAll))
        (irqInit [levelCtrlr] []) ascendingCalls).map
          (fun info =>
            (info.hw, decide (info.Registered 5), info.prioOf 5,
              decide (info.Registered 9), info.prioOf 9)) =
        some ([5, 9], true, 3, true, 7) := by
    decide +kernel
  rw [executed, Option.map_some, Option.some.injEq] at facts
  simp only [Prod.mk.injEq, decide_eq_true_eq] at facts
  obtain ⟨pending, hasFive, five, hasNine, nine⟩ := facts
  have run := Run.guarded_of_execute executed
  have ctrlrs := (ordered_of_run (Rebalancing.never Nat) serveAll run).ctrlrs
  obtain ⟨accepts, dispatches⟩ :=
    greatest_priority_dispatched (Rebalancing.never Nat) serveAll run
  obtain ⟨dispatch, after, handled, none_or_found⟩ :=
    dispatches _ (· = [5, 9]) pending
      fun irq _ => levelCtrlr_answering ctrlrs [5, 9] irq
  rcases none_or_found with ⟨-, quiet⟩ | ⟨found, shape, greatest⟩
  · cases quiet 5 hasFive
  · subst shape
    refine ⟨info, executed, accepts, found, after, handled, greatest, ?_⟩
    have isPending := of_decide_eq_true greatest.isPending
    rw [List.mem_cons, List.mem_singleton] at isPending
    rcases isPending with isFive | isNine
    · have most := greatest.greatest 9 hasNine rfl
      rw [isFive, five, nine] at most
      exact absurd most (by decide)
    · exact isNine

/-- Two lines registered in descending order, both pending at the end. -/
def descendingCalls : List (IrqCall (List Nat)) :=
  [.register 1 irqAttrEdge 12 100 0, .register 2 irqAttrEdge 7 200 0,
    .device [1, 2]]

/-- A line that takes the former priority of a removed one over. -/
def reusedPriorityCalls : List (IrqCall (List Nat)) :=
  [.register 1 irqAttrEdge 7 100 0, .unregister 1 100,
    .register 2 irqAttrEdge 7 200 0]

/--
The line of priority 7 is dispatched before the line of priority 12 that was
registered first; and a removed line cannot come back while another line has
its former priority: the registration stops at the assertion.
-/
theorem descending_registration_misdispatches :
    ((execute (irqNext (Rebalancing.never Nat) serveAll) (irqInit [levelCtrlr] [])
        descendingCalls).bind fun info =>
      (irqHandleIrq (Rebalancing.never Nat) serveAll info).map fun (dispatch, _) =>
        (dispatch, info.prioOf 1, info.prioOf 2)) =
      some (some ⟨2, [⟨200, 0⟩], true⟩, 12, 7) ∧
    ((execute (irqNext (Rebalancing.never Nat) serveAll) (irqInit [levelCtrlr] [])
        reusedPriorityCalls).map fun info =>
      (irqRegisterHandler (Rebalancing.never Nat) info 1 irqAttrEdge 12 100 0).isSome) =
      some false := by
  decide +kernel

end RiscvWorkshop.Irq
