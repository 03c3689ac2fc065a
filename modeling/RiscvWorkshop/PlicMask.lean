import Mathlib
import RiscvWorkshop.IrqReferences
import RiscvWorkshop.Plic

namespace RiscvWorkshop.Irq

open SearchTree

/-!
# The enable words and the priority thresholds of the harts

Each hart has an enable word with a bit for each line, and a threshold.  A
dispatch closes its line, raises the threshold, and undoes both when its
handlers have returned; other lines may interrupt a handler in between.
-/

/-- The registers that all harts share, and the enable word and threshold of each. -/
structure PlicHarts where
  prio : Nat → Nat
  senable : Nat → BitVec 32
  threshold : Nat → Fin 8
  pending : Nat → Bool
  claimed : Nat → Bool

namespace PlicHarts

/-- The registers as one hart sees them. -/
def onHart
    (harts : PlicHarts)
    (hart : Nat) : Plic where
  prio := harts.prio
  senable := harts.senable hart
  threshold := harts.threshold hart
  pending := harts.pending
  claimed := harts.claimed

/-- A hart rewrites the registers that it sees. -/
def withHart
    (harts : PlicHarts)
    (hart : Nat)
    (plic : Plic) : PlicHarts where
  prio := plic.prio
  senable := Function.update harts.senable hart plic.senable
  threshold := Function.update harts.threshold hart plic.threshold
  pending := plic.pending
  claimed := plic.claimed

/-- One round of the loop over the online processors in `plic_config_irq`. -/
def openLine
    (irq : Nat)
    (harts : PlicHarts)
    (hart : Nat) : PlicHarts :=
  { harts with
    senable :=
      Function.update harts.senable hart
        (harts.senable hart ||| 1#32 <<< irq) }

end PlicHarts

section Controller

variable (online : List Nat)
variable (hart : Nat)

/-- `plic_config_irq`, with the harts of the online processors. -/
def plicConfigIrqOn
    (harts : PlicHarts)
    (irq attr prio : Nat) : Except Errno PlicHarts :=
  if irq ≥ plicIrqMax then
    .error .einval
  else if prio > plicPrioMax ∨ prio < plicPrioMin then
    .error .einval
  else if attr &&& irqAttrEdge = 0 then
    .error .einval
  else
    .ok
      (online.foldl (PlicHarts.openLine irq)
        { harts with prio := Function.update harts.prio irq prio })

/-- `plic_ctrlr` as the code of one hart uses it. -/
def plicCtrlrOn : IrqCtrlr PlicHarts where
  minIrq := 0
  maxIrq := plicIrqMax
  configIrq := plicConfigIrqOn online
  irqIsPending := fun harts irq prio =>
    let (pending, plic) := plicIrqIsPending (harts.onHart hart) irq prio
    (pending, harts.withHart hart plic)
  enableIrq := fun harts irq =>
    harts.withHart hart (plicEnableIrq (harts.onHart hart) irq)
  disableIrq := fun harts irq =>
    harts.withHart hart (plicDisableIrq (harts.onHart hart) irq)
  priMask :=
    some
      (fun harts => plicGetPriority (harts.onHart hart),
        fun harts prio =>
          harts.withHart hart (plicSetPriority (harts.onHart hart) prio))
  eoi := fun harts irq =>
    harts.withHart hart (plicEoi (harts.onHart hart) irq)

end Controller

/-! ## What is asked of the operations -/

/-- One bit of a word has a value, and the others are as before. -/
def BitChanged
    (irq : Nat)
    (value : Bool)
    (before after : BitVec 32) : Prop :=
  ∀ line < plicIrqMax,
    after.getLsbD line = if line = irq then value else before.getLsbD line

/-- The operations of the controller on the mask of a line. -/
inductive MaskOperation where
  | config (attr prio : Nat)
  | enable
  | disable
deriving Repr, DecidableEq

namespace MaskOperation

variable (online : List Nat)
variable (hart irq : Nat)
variable (harts : PlicHarts)

/-- The registers after an operation on a line by the code of a hart. -/
def apply : MaskOperation → PlicHarts
  | config attr prio =>
      match plicConfigIrqOn online harts irq attr prio with
      | .ok after => after
      | .error _ => harts
  | enable => (plicCtrlrOn online hart).enableIrq harts irq
  | disable => (plicCtrlrOn online hart).disableIrq harts irq

/-- The harts whose enable word an operation is about. -/
def concerned : MaskOperation → List Nat
  | config attr prio =>
      match plicConfigIrqOn online harts irq attr prio with
      | .ok _ => online
      | .error _ => []
  | enable => [hart]
  | disable => [hart]

/-- The value that the bit of the line is given. -/
def value : MaskOperation → Bool
  | config _ _ => true
  | enable => true
  | disable => false

/-- An operation changes one bit of the words that it is about, and no threshold. -/
structure OnlyBit (operation : MaskOperation) : Prop where
  concerned : ∀ other ∈ operation.concerned online hart irq harts,
    BitChanged irq operation.value (harts.senable other)
      ((operation.apply online hart irq harts).senable other)
  others : ∀ other ∉ operation.concerned online hart irq harts,
    (operation.apply online hart irq harts).senable other = harts.senable other
  thresholds :
    (operation.apply online hart irq harts).threshold = harts.threshold

end MaskOperation

/-- No line but one is enabled for a hart. -/
def NoOther
    (harts : PlicHarts)
    (hart irq : Nat) : Prop :=
  ∀ line < plicIrqMax, line ≠ irq → (harts.senable hart).getLsbD line = false

/-! ## A dispatch with what happens in it -/

/-- The masks of a hart are the same, and no line has lost its handlers. -/
structure KeepsMasks
    (hart : Nat)
    (system after : IrqSystem PlicHarts) : Prop where
  senable : after.info.hw.senable hart = system.info.hw.senable hart
  threshold : after.info.hw.threshold hart = system.info.hw.threshold hart
  registered : ∀ line,
    system.info.Registered line → after.info.Registered line

section Handling

variable (rebalancing : Rebalancing Nat)

/--
The steps of a hart while a handler runs: the hart is interrupted, the handler
that was called last returns, or something else is done that leaves the masks
alone.
-/
def LeavesMasks
    (hart : Nat)
    (system : IrqSystem PlicHarts) : AnyAction PlicHarts → Prop
  | .interrupt => True
  | .handlerReturns index _ => index = 0
  | .register irq attr prio handler privateInfo =>
      ∀ after,
        irqSystemNext rebalancing system
            (.register irq attr prio handler privateInfo :
              AnyAction PlicHarts) = some after →
          KeepsMasks hart system after
  | .unregister irq handler =>
      ∀ after,
        irqSystemNext rebalancing system
            (.unregister irq handler : AnyAction PlicHarts) = some after →
          KeepsMasks hart system after
  | .device change =>
      KeepsMasks hart system
        { system with
          info := { system.info with hw := change.apply system.info.hw } }

/--
A call of `irq_handle_irq` that finds a line: a state in which no dispatch is
under way on the hart, the steps up to the call, and those in it until it
returns.
-/
structure Handling
    (online : List Nat)
    (hart irq : Nat) where
  idle : IrqSystem PlicHarts
  ctrlrs : idle.info.ctrlrQue = [plicCtrlrOn online hart]
  noFrame : idle.frames = []
  earlier : List (AnyAction PlicHarts)
  before : IrqSystem PlicHarts
  ran :
    Run (Guarded (LeavesMasks rebalancing hart)
        (StepOf (irqSystemNext rebalancing)))
      idle earlier before
  polled : IrqInfo PlicHarts
  found :
    findPending rebalancing before.info.prioQue.toList.reverse before.info =
      some (some irq, polled)
  entered : IrqSystem PlicHarts
  interrupted :
    irqSystemNext rebalancing before (.interrupt : AnyAction PlicHarts) =
      some entered
  nested : List (AnyAction PlicHarts)
  after : IrqSystem PlicHarts
  served :
    Run (Guarded (LeavesMasks rebalancing hart)
        (Guarded
          (fun system _ => before.frames.length < system.frames.length)
          (StepOf (irqSystemNext rebalancing))))
      entered nested after
  returned : after.frames.length = before.frames.length

/-- The masks of the hart are after the call what they were before it. -/
def Handling.MasksKept
    {rebalancing : Rebalancing Nat}
    {online : List Nat}
    {hart irq : Nat}
    (handling : Handling rebalancing online hart irq) : Prop :=
  handling.after.info.hw.senable hart = handling.before.info.hw.senable hart ∧
    handling.after.info.hw.threshold hart =
      handling.before.info.hw.threshold hart

end Handling

/-! ## What the operations do to the words -/

/-- The bits of the word in which only one line is enabled. -/
theorem lineBit_getLsbD
    {irq line : Nat}
    (small : irq < plicIrqMax) :
    (1#32 <<< irq).getLsbD line = decide (line = irq) := by
  rw [plicIrqMax] at small
  simp only [BitVec.getLsbD_shiftLeft, BitVec.getLsbD_one]
  grind

/-- Setting a bit is a change of that bit. -/
theorem bitChanged_or
    {irq : Nat}
    (small : irq < plicIrqMax)
    (word : BitVec 32) :
    BitChanged irq true word (word ||| 1#32 <<< irq) := by
  intro line _
  rw [BitVec.getLsbD_or, lineBit_getLsbD small]
  by_cases same : line = irq <;> simp [same]

/-- Clearing a bit is a change of that bit. -/
theorem bitChanged_andNot
    {irq : Nat}
    (small : irq < plicIrqMax)
    (word : BitVec 32) :
    BitChanged irq false word (word &&& ~~~(1#32 <<< irq)) := by
  intro line inWord
  have inside : line < 32 := inWord
  rw [BitVec.getLsbD_and, BitVec.getLsbD_not, lineBit_getLsbD small]
  by_cases same : line = irq <;> simp [same, inside]

/-- Writing the bit alone is a change of that bit when no other is set. -/
theorem bitChanged_alone_iff
    {irq : Nat}
    (small : irq < plicIrqMax)
    (word : BitVec 32) :
    BitChanged irq true word (1#32 <<< irq) ↔
      ∀ line < plicIrqMax, line ≠ irq → word.getLsbD line = false := by
  refine forall₂_congr fun line _ => ?_
  rw [lineBit_getLsbD small]
  by_cases same : line = irq
  · simp [same]
  · rw [if_neg same, decide_eq_false same]
    exact ⟨fun clear _ => clear.symm, fun clear => (clear same).symm⟩

/-- The harts of the online processors have the line opened, the others not. -/
theorem openLines_senable
    (online : List Nat)
    (irq other : Nat)
    (harts : PlicHarts) :
    (online.foldl (PlicHarts.openLine irq) harts).senable other =
      if other ∈ online then harts.senable other ||| 1#32 <<< irq
      else harts.senable other := by
  induction online generalizing harts with
  | nil => rfl
  | cons hart rest inductionHypothesis =>
      rw [List.foldl_cons, inductionHypothesis]
      by_cases same : other = hart
      · subst same
        simp [PlicHarts.openLine, BitVec.or_assoc]
      · simp [PlicHarts.openLine, same]

theorem openLines_rest
    (online : List Nat)
    (irq : Nat)
    (harts : PlicHarts) :
    let after := online.foldl (PlicHarts.openLine irq) harts
    after.prio = harts.prio ∧ after.threshold = harts.threshold ∧
      after.pending = harts.pending ∧ after.claimed = harts.claimed := by
  induction online generalizing harts with
  | nil => exact ⟨rfl, rfl, rfl, rfl⟩
  | cons hart rest inductionHypothesis => exact inductionHypothesis _

/-- An online hart sees the line configured as the only hart would. -/
theorem plicConfigIrqOn_onHart
    {online : List Nat}
    {harts after : PlicHarts}
    {hart irq attr prio : Nat}
    (isOnline : hart ∈ online)
    (configured : plicConfigIrqOn online harts irq attr prio = .ok after) :
    plicConfigIrq (harts.onHart hart) irq attr prio =
      .ok (after.onHart hart) := by
  rw [plicConfigIrqOn] at configured
  rw [plicConfigIrq]
  split_ifs at configured ⊢
  cases configured
  obtain ⟨prios, thresholds, pending, claimed⟩ := openLines_rest online irq
    { harts with prio := Function.update harts.prio irq prio }
  simp only [PlicHarts.onHart, openLines_senable, if_pos isOnline, prios,
    thresholds, pending, claimed]

namespace MaskOperation

variable {online : List Nat}
variable {hart irq : Nat}
variable {harts : PlicHarts}

/-- Configuring a line opens it for the online harts, or changes nothing. -/
theorem config_onlyBit
    (small : irq < plicIrqMax)
    (attr prio : Nat) :
    (config attr prio).OnlyBit online hart irq harts := by
  cases configured : plicConfigIrqOn online harts irq attr prio with
  | error code =>
      constructor <;> simp [concerned, apply, configured]
  | ok after =>
      have made := configured
      rw [plicConfigIrqOn] at made
      split_ifs at made
      cases made
      have opened := openLines_senable online irq
      constructor
      case concerned =>
        intro other isOnline
        simp only [concerned, configured] at isOnline
        simp only [apply, configured, opened, if_pos isOnline]
        exact bitChanged_or small _
      case others =>
        intro other notOnline
        simp only [concerned, configured] at notOnline
        simp only [apply, configured, opened, if_neg notOnline]
      case thresholds =>
        simp only [apply, configured]
        exact (openLines_rest online irq _).2.1

/-- What a hart rewrites for itself leaves the words of the others. -/
theorem onlyBit_of_own
    {operation : MaskOperation}
    {plic : Plic}
    (own : operation.concerned online hart irq harts = [hart])
    (written : operation.apply online hart irq harts = harts.withHart hart plic)
    (threshold : plic.threshold = harts.threshold hart) :
    operation.OnlyBit online hart irq harts ↔
      BitChanged irq operation.value (harts.senable hart) plic.senable := by
  constructor
  · intro only
    have changed := only.concerned hart (own ▸ List.mem_singleton_self hart)
    rw [written, PlicHarts.withHart] at changed
    simpa using changed
  · intro changed
    constructor
    case concerned =>
      intro other member
      rw [own, List.mem_singleton] at member
      rw [member, written]
      simpa [PlicHarts.withHart] using changed
    case others =>
      intro other member
      rw [own, List.mem_singleton] at member
      rw [written]
      simp [PlicHarts.withHart, member]
    case thresholds =>
      rw [written, PlicHarts.withHart, threshold, Function.update_eq_self]

/-- Disabling a line clears its bit only. -/
theorem disable_onlyBit
    (small : irq < plicIrqMax) :
    disable.OnlyBit online hart irq harts := by
  refine (onlyBit_of_own rfl rfl ?_).mpr ?_ <;>
    rw [plicDisableIrq, if_neg (Nat.not_le.mpr small)]
  · rfl
  · exact bitChanged_andNot small _

/-- Enabling a line clears the bits of all others. -/
theorem enable_onlyBit_iff
    (small : irq < plicIrqMax) :
    enable.OnlyBit online hart irq harts ↔ NoOther harts hart irq := by
  rw [onlyBit_of_own rfl rfl, plicEnableIrq, if_neg (Nat.not_le.mpr small)]
  · exact bitChanged_alone_iff small _
  · rw [plicEnableIrq, if_neg (Nat.not_le.mpr small)]
    rfl

/-- Which operations change only the bit of their line. -/
theorem onlyBit_iff
    (small : irq < plicIrqMax)
    (operation : MaskOperation) :
    operation.OnlyBit online hart irq harts ↔
      (operation = enable → NoOther harts hart irq) := by
  cases operation with
  | config attr prio =>
      exact iff_of_true (config_onlyBit small attr prio) nofun
  | enable =>
      rw [enable_onlyBit_iff small]
      exact ⟨fun alone _ => alone, fun alone => alone rfl⟩
  | disable => exact iff_of_true (disable_onlyBit small) nofun

end MaskOperation

/-! ## The steps on one hart -/

/-- Every line under way has handlers, and a reference for these. -/
def Backed
    {Hw : Type}
    (system : IrqSystem Hw) : Prop :=
  ∀ irq, system.underWay irq ≠ 0 →
    system.info.Registered irq ∧
      3 * system.underWay irq < (system.info.irqs irq).refs

section Steps

variable {Hw : Type}
variable (rebalancing : Rebalancing Nat)
variable {info : IrqInfo Hw}
variable {system after : IrqSystem Hw}

/-- The scan keeps what polls keep, and refers to the line that it finds. -/
theorem findPending_polls
    {property : Hw → Prop}
    {lines : List Nat}
    {found : Option Nat}
    {polled : IrqInfo Hw}
    (polls : ∀ ctrlr ∈ info.ctrlrQue, ∀ hw irq prio,
      property hw → property (ctrlr.irqIsPending hw irq prio).2)
    (before : property info.hw)
    (called : findPending rebalancing lines info = some (found, polled)) :
    ∃ hw,
      property hw ∧
        (found = none ∧ polled = { info with hw } ∨
          ∃ irq,
            found = some irq ∧ (info.irqs irq).refs ≠ 0 ∧
              polled = { info.hold irq with hw }) := by
  induction lines generalizing info with
  | nil =>
      cases called
      exact ⟨_, before, .inl ⟨rfl, rfl⟩⟩
  | cons irq rest inductionHypothesis =>
      rw [findPending] at called
      by_cases free : (info.irqs irq).refs = 0
      · have refused : irqlineGet info irq = (false, info) := by
          simp [irqlineGet, free]
        rw [refused] at called
        exact inductionHypothesis polls before called
      · rw [irqlineGet_hold free] at called
        cases isCtrlr : info.ctrlrOf irq with
        | none =>
            have noCtrlr : (info.hold irq).ctrlrOf irq = none :=
              (info.hold_ctrlrOf info.hw irq irq).trans isCtrlr
            simp only [noCtrlr] at called
            cases called
        | some ctrlr =>
            have ctrlrHeld : (info.hold irq).ctrlrOf irq = some ctrlr :=
              (info.hold_ctrlrOf info.hw irq irq).trans isCtrlr
            have inQue : ctrlr ∈ info.ctrlrQue := by
              obtain ⟨place, -, atPlace⟩ := Option.bind_eq_some_iff.mp isCtrlr
              exact List.mem_of_getElem? atPlace
            have kept :=
              polls ctrlr inQue info.hw irq ((info.hold irq).prioOf irq) before
            simp only [ctrlrHeld, IrqInfo.hold_hw] at called
            split at called
            case h_1 hw asked =>
              rw [asked] at kept
              cases called
              exact ⟨hw, kept, .inr ⟨irq, rfl, free, rfl⟩⟩
            case h_2 hw asked =>
              rw [asked] at kept
              simp only [irqlinePut_hold rebalancing free isCtrlr] at called
              have later :=
                inductionHypothesis (by exact polls) (by exact kept) called
              exact later

/-- A line that is dispatched has a controller. -/
theorem dispatchLine_of
    {irq : Nat}
    {hw : Hw}
    {left : Option Frame × IrqInfo Hw}
    (called :
      dispatchLine rebalancing { info.hold irq with hw } irq = some left) :
    irq < nrIrqs ∧
      ∃ place ctrlr,
        (info.irqs irq).ctrlr = some place ∧ info.ctrlrOf irq = some ctrlr := by
  have get :
      irqlineGet { info.hold irq with hw } irq =
        (true, { (info.hold irq).hold irq with hw }) :=
    irqlineGet_hold (by simp [IrqInfo.hold, IrqInfo.setLine])
  rw [dispatchLine] at called
  split_ifs at called with small
  rw [get] at called
  have line :
      (((info.hold irq).hold irq).irqs irq).ctrlr = (info.irqs irq).ctrlr := by
    simp [IrqInfo.hold, IrqInfo.setLine]
  have found :
      ({ (info.hold irq).hold irq with hw } : IrqInfo Hw).ctrlrOf irq =
        info.ctrlrOf irq := by
    rw [IrqInfo.hold_ctrlrOf]
    exact info.hold_ctrlrOf info.hw irq irq
  simp only [line, found] at called
  refine ⟨small, ?_⟩
  split at called
  case h_1 place ctrlr isPlace isCtrlr => exact ⟨place, ctrlr, isPlace, isCtrlr⟩
  case h_2 => cases called

/--
An interrupt: the scan finds nothing, or it finds a line, whose first handler
then runs, or which has none and is left again.
-/
inductive Interrupted
    (property : Hw → Prop)
    (system : IrqSystem Hw) :
    Option Nat → IrqSystem Hw → Prop where
  | nothing
      {hw : Hw}
      (kept : property hw) :
      Interrupted property system none
        { system with info := { system.info with hw } }
  | running
      {irq place : Nat}
      {ctrlr : IrqCtrlr Hw}
      {hw : Hw}
      (kept : property hw)
      (isOf : (dispatchFrame ctrlr irq place hw).Of system.info ctrlr)
      (registered : system.info.Registered irq) :
      Interrupted property system (some irq)
        (system.running (dispatchFrame ctrlr irq place hw) 0
          (completedHw ctrlr (system.info.prioOf irq) irq hw))
  | passed
      {irq place : Nat}
      {ctrlr : IrqCtrlr Hw}
      {hw : Hw}
      (kept : property hw)
      (isOf : (dispatchFrame ctrlr irq place hw).Of system.info ctrlr) :
      Interrupted property system (some irq)
        (system.dispatched ctrlr (dispatchFrame ctrlr irq place hw)
          (completedHw ctrlr (system.info.prioOf irq) irq hw))

theorem interrupted_of_step
    {property : Hw → Prop}
    (polls : ∀ ctrlr ∈ system.info.ctrlrQue, ∀ hw irq prio,
      property hw → property (ctrlr.irqIsPending hw irq prio).2)
    (before : property system.info.hw)
    (stepped :
      irqSystemNext rebalancing system (.interrupt : AnyAction Hw) =
        some after) :
    ∃ found polled,
      findPending rebalancing system.info.prioQue.toList.reverse
          system.info = some (found, polled) ∧
        Interrupted property system found after := by
  rw [irqSystemNext, irqStep] at stepped
  cases called :
      findPending rebalancing system.info.prioQue.toList.reverse
        system.info with
  | none =>
      rw [called] at stepped
      cases stepped
  | some result =>
      obtain ⟨found, polled⟩ := result
      refine ⟨found, polled, rfl, ?_⟩
      rw [called] at stepped
      obtain ⟨hw, kept, ⟨rfl, rfl⟩ | ⟨irq, rfl, referred, rfl⟩⟩ :=
        findPending_polls rebalancing polls before called
      · cases stepped
        exact .nothing kept
      · simp only [Option.map_map] at stepped
        obtain ⟨left, dispatched, isAfter⟩ :=
          Option.map_eq_some_iff.mp stepped
        obtain ⟨small, place, ctrlr, line, isCtrlr⟩ :=
          dispatchLine_of rebalancing dispatched
        have isOf :
            (dispatchFrame ctrlr irq place hw).Of system.info ctrlr := by
          refine ⟨referred, isCtrlr, ?_⟩
          obtain ⟨other, same, atPlace⟩ := Option.bind_eq_some_iff.mp isCtrlr
          rw [line] at same
          cases same
          exact atPlace
        have first := isOf.firstHandler rebalancing small line
        rw [dispatched, Option.map_some, Option.some.injEq] at first
        have isAfter : system.withFrame system.frames left = after :=
          isAfter
        rw [← isAfter, first]
        split_ifs with handlers
        · exact .running kept isOf (List.ne_nil_of_length_pos handlers)
        · exact .passed kept isOf

/-- A reference to a line that has a controller is counted down. -/
theorem irqlinePut_of
    {irq : Nat}
    {last : Bool}
    {put : IrqInfo Hw}
    (called : irqlinePut rebalancing info irq = some (last, put)) :
    put.ctrlrQue = info.ctrlrQue ∧
      put.irqs =
        Function.update info.irqs irq
          { info.irqs irq with refs := (info.irqs irq).refs - 1 } ∧
      ∃ ctrlr, info.ctrlrOf irq = some ctrlr := by
  cases isCtrlr : info.ctrlrOf irq with
  | none =>
      simp only [irqlinePut, isCtrlr] at called
      cases called
  | some ctrlr =>
      simp only [irqlinePut, isCtrlr] at called
      split at called
      · cases called
      · rename_i refs counted
        rw [counted, Nat.succ_sub_one]
        split_ifs at called <;> cases called <;> exact ⟨rfl, rfl, ctrlr, rfl⟩

/-- The only controller is that of every line that has one. -/
theorem ctrlrOf_single
    {ctrlr found : IrqCtrlr Hw}
    {irq : Nat}
    (ctrlrs : info.ctrlrQue = [ctrlr])
    (isCtrlr : info.ctrlrOf irq = some found) :
    found = ctrlr := by
  obtain ⟨place, -, atPlace⟩ := Option.bind_eq_some_iff.mp isCtrlr
  rw [ctrlrs] at atPlace
  exact List.mem_singleton.mp (List.mem_of_getElem? atPlace)

/-- A dispatch that is left has a controller, and so has its line. -/
theorem leaveLine_of
    {frame : Frame}
    {left : IrqInfo Hw}
    (called : leaveLine rebalancing info frame = some left) :
    (∃ ctrlr, info.ctrlrOf frame.irq = some ctrlr) ∧
      ∃ ctrlr, info.ctrlrQue[frame.ctrlr]? = some ctrlr := by
  rw [leaveLine] at called
  cases put : irqlinePut rebalancing info frame.irq with
  | none =>
      rw [put] at called
      cases called
  | some result =>
      obtain ⟨last, middle⟩ := result
      obtain ⟨sameCtrlrs, -, isCtrlr⟩ := irqlinePut_of rebalancing put
      rw [put] at called
      simp only [closeLine] at called
      split at called
      case h_2 => cases called
      case h_1 _ _ _ ctrlr _ atPlace =>
        exact ⟨isCtrlr, ctrlr, sameCtrlrs ▸ atPlace⟩

/-- The lines once a dispatch has returned its references and opened its line. -/
def IrqInfo.opened
    (info : IrqInfo Hw)
    (ctrlr : IrqCtrlr Hw)
    (frame : Frame) : IrqInfo Hw :=
  { info with
    irqs :=
      Function.update info.irqs frame.irq
        { info.irqs frame.irq with refs := (info.irqs frame.irq).refs - 3 }
    hw := restoredHw ctrlr frame.mask (ctrlr.enableIrq info.hw frame.irq) }

/-- A dispatch that is left returns its three references and opens the line. -/
theorem leaveLine_of_backed
    {ctrlr : IrqCtrlr Hw}
    {frame : Frame}
    {left : IrqInfo Hw}
    (ctrlrs : info.ctrlrQue = [ctrlr])
    (backed : 3 < (info.irqs frame.irq).refs)
    (called : leaveLine rebalancing info frame = some left) :
    left = info.opened ctrlr frame := by
  obtain ⟨⟨found, isCtrlr⟩, other, atPlace⟩ := leaveLine_of rebalancing called
  obtain ⟨count, refs⟩ := Nat.exists_eq_add_of_lt backed
  -- the line with the three references given back, and with them taken again
  let base : IrqSystem Hw :=
    { info :=
        info.setLine frame.irq
          { info.irqs frame.irq with
            refs := (info.irqs frame.irq).refs - 3 }
      frames := []
      asked := fun _ => [] }
  have isOf : frame.Of base.info ctrlr := by
    constructor
    case referred =>
      simp only [base, IrqInfo.setLine, Function.update_self]
      omega
    case line =>
      rw [← ctrlrOf_single ctrlrs isCtrlr, ← isCtrlr]
      simp [base, IrqInfo.ctrlrOf, IrqInfo.setLine]
    case atPlace =>
      have inQue := List.mem_of_getElem? atPlace
      rw [ctrlrs, List.mem_singleton] at inQue
      exact inQue ▸ atPlace
  have taken : (base.running frame 0 info.hw).info = info := by
    have whole :
        (info.irqs frame.irq).refs - 3 + 1 + 1 + 1 =
          (info.irqs frame.irq).refs := by
      omega
    simp [IrqSystem.running, base, IrqInfo.hold, IrqInfo.setLine, whole]
  have gone := isOf.leaveLine rebalancing 0 frame.place info.hw
  rw [taken] at gone
  rw [called, Option.some.injEq] at gone
  exact gone

/--
The handler that was called last returns: the next one is called, or the
dispatch returns its references and opens the line.
-/
theorem returned_of_step
    {ctrlr : IrqCtrlr Hw}
    {frame : Frame}
    {rest : List Frame}
    {handled : Bool}
    (ctrlrs : system.info.ctrlrQue = [ctrlr])
    (frames : system.frames = frame :: rest)
    (backed : 3 < (system.info.irqs frame.irq).refs)
    (stepped :
      irqSystemNext rebalancing system
          (.handlerReturns 0 handled : AnyAction Hw) = some after) :
    (∃ place,
      after = { system with frames := { frame with place } :: rest }) ∨
      after =
        { system with
          info := system.info.opened ctrlr frame
          frames := rest } := by
  have called :
      (handlerReturns rebalancing system.info frame handled).map
          (system.withFrame rest) = some after := by
    simp only [irqSystemNext, irqStep, frames, List.getElem?_cons_zero,
      List.eraseIdx_cons_zero, Option.map_map] at stepped
    exact stepped
  obtain ⟨left, returned, isAfter⟩ := Option.map_eq_some_iff.mp called
  have leaves :
      (leaveLine rebalancing system.info frame).map (fun info => (none, info)) =
          some left →
        after =
          { system with
            info := system.info.opened ctrlr frame
            frames := rest } := by
    intro ended
    obtain ⟨info, closed, rfl⟩ := Option.map_eq_some_iff.mp ended
    rw [← leaveLine_of_backed rebalancing ctrlrs backed closed, ← isAfter]
    rfl
  rw [handlerReturns] at returned
  cases handled with
  | true =>
      exact .inr (leaves returned)
  | false =>
      rw [if_neg Bool.false_ne_true] at returned
      split at returned
      case h_1 => cases returned
      case h_2 place isPlace =>
        rw [callHandler] at returned
        split_ifs at returned with next
        · cases returned
          exact .inl ⟨_, isAfter.symm⟩
        · exact .inr (leaves returned)

/-- A registration leaves the references to the lines that have handlers. -/
theorem irqRegisterHandler_refs
    {irq attr prio handler privateInfo : Nat}
    {result : Except Errno Unit}
    {registered : IrqInfo Hw}
    (called :
      irqRegisterHandler rebalancing info irq attr prio handler privateInfo =
        some (result, registered)) :
    registered.ctrlrQue = info.ctrlrQue ∧
      ∀ line, info.Registered line →
        (registered.irqs line).refs = (info.irqs line).refs := by
  have added : ∀ line,
      ((addHandler info irq handler privateInfo).irqs line).refs =
        (info.irqs line).refs := by
    intro line
    by_cases same : line = irq <;> simp [addHandler, IrqInfo.setLine, same]
  rw [irqRegisterHandler] at called
  split_ifs at called with big
  · cases called
    exact ⟨rfl, fun _ _ => rfl⟩
  split at called
  case h_1 => cases called
  case h_2 =>
    cases called
    exact ⟨rfl, fun _ _ => rfl⟩
  case h_3 =>
    simp only at called
    split_ifs at called with old differ exclusive sameCtrlr
    · cases called
      exact ⟨rfl, fun _ _ => rfl⟩
    · cases called
      exact ⟨rfl, fun _ _ => rfl⟩
    · cases called
      exact ⟨rfl, fun line _ => added line⟩
    · split at called
      case h_2 => cases called
      case h_1 =>
        split at called
        · cases called
          exact ⟨rfl, fun _ _ => rfl⟩
        · cases called
          refine ⟨rfl, fun line isRegistered => ?_⟩
          have different : line ≠ irq := by
            rintro rfl
            exact isRegistered (of_not_not old)
          simp [addHandler, IrqInfo.setLine, different]

/-- Taking a handler off leaves the references to the lines that keep one. -/
theorem irqUnregisterHandler_refs
    {irq handler : Nat}
    {result : Except Errno Unit}
    {left : IrqInfo Hw}
    (called :
      irqUnregisterHandler rebalancing info irq handler =
        some (result, left)) :
    left.ctrlrQue = info.ctrlrQue ∧
      ∀ line, left.Registered line →
        (left.irqs line).refs = (info.irqs line).refs := by
  rw [irqUnregisterHandler] at called
  split_ifs at called with big
  · cases called
    exact ⟨rfl, fun _ _ => rfl⟩
  simp only at called
  split_ifs at called with uncontrolled
  split at called
  case h_1 =>
    cases called
    exact ⟨rfl, fun _ _ => rfl⟩
  case h_2 ent _ =>
    have kept : ∀ line,
        ((info.setLine irq
          { info.irqs irq with
            handlers := (info.irqs irq).handlers.erase ent }).irqs
              line).refs = (info.irqs line).refs := by
      intro line
      by_cases same : line = irq <;> simp [IrqInfo.setLine, same]
    split_ifs at called with empty
    · obtain ⟨⟨last, put⟩, returned, same⟩ := Option.map_eq_some_iff.mp called
      cases same
      obtain ⟨sameCtrlrs, irqs, -⟩ := irqlinePut_of rebalancing returned
      refine ⟨sameCtrlrs, fun line isRegistered => ?_⟩
      rw [IrqInfo.Registered, irqs] at isRegistered
      rw [irqs]
      by_cases same : line = irq
      · subst same
        rw [Function.update_self] at isRegistered
        exact absurd empty isRegistered
      · rw [Function.update_of_ne same]
        exact kept line
    · cases called
      exact ⟨rfl, fun line _ => kept line⟩

/-- The lines of the dispatches under way, with the thresholds they restore. -/
def IrqSystem.calls (system : IrqSystem Hw) : List (Nat × Option Nat) :=
  system.frames.map fun frame => (frame.irq, frame.mask)

theorem IrqSystem.length_calls (system : IrqSystem Hw) :
    system.calls.length = system.frames.length :=
  List.length_map _

theorem IrqSystem.underWay_eq
    (system : IrqSystem Hw)
    (irq : Nat) :
    system.underWay irq = system.calls.countP (·.1 = irq) := by
  rw [underWay, calls, List.countP_map]
  rfl

/-- What a step on a hart does to the dispatches under way and to their lines. -/
inductive HartStep
    (ctrlr : IrqCtrlr Hw)
    (system after : IrqSystem Hw) : Prop where
  | quiet
      (calls : after.calls = system.calls)
      (registered : ∀ line,
        system.info.Registered line → after.info.Registered line)
      (refs : ∀ line,
        system.info.Registered line →
          (after.info.irqs line).refs = (system.info.irqs line).refs)
  | entered
      {irq : Nat}
      {mask : Option Nat}
      (calls : after.calls = (irq, mask) :: system.calls)
      (registered : system.info.Registered irq)
      (referred : (system.info.irqs irq).refs ≠ 0)
      (irqs :
        after.info.irqs =
          Function.update system.info.irqs irq
            { system.info.irqs irq with
              refs := (system.info.irqs irq).refs + 3 })
  | returned
      {irq : Nat}
      {mask : Option Nat}
      (calls : system.calls = (irq, mask) :: after.calls)
      (irqs :
        after.info.irqs =
          Function.update system.info.irqs irq
            { system.info.irqs irq with
              refs := (system.info.irqs irq).refs - 3 })
      (hw :
        after.info.hw =
          restoredHw ctrlr mask (ctrlr.enableIrq system.info.hw irq))

/-- A step on a hart keeps the lines under way backed. -/
theorem HartStep.backed
    {ctrlr : IrqCtrlr Hw}
    (step : HartStep ctrlr system after)
    (backed : Backed system) :
    Backed after := by
  intro line busy
  rw [IrqSystem.underWay_eq] at busy ⊢
  have held := backed line
  rw [IrqSystem.underWay_eq] at held
  cases step with
  | quiet calls registered refs =>
      rw [calls] at busy ⊢
      obtain ⟨isRegistered, more⟩ := held busy
      exact ⟨registered line isRegistered, refs line isRegistered ▸ more⟩
  | entered calls registered referred irqs =>
      rw [IrqInfo.Registered, irqs]
      rw [calls, List.countP_cons] at busy ⊢
      rename_i irq mask
      by_cases same : line = irq
      · subst same
        simp only [Function.update_self, decide_true, if_true]
        refine ⟨registered, ?_⟩
        by_cases first : system.calls.countP (·.1 = line) = 0
        · omega
        · have more := (held first).2
          omega
      · simp only [Ne.symm same, decide_false, Bool.false_eq_true, if_false,
          Nat.add_zero, Function.update_of_ne same] at busy ⊢
        exact held busy
  | returned calls irqs hw =>
      rw [IrqInfo.Registered, irqs]
      rw [calls, List.countP_cons] at held
      rename_i irq mask
      by_cases same : line = irq
      · subst same
        simp only [decide_true, if_true] at held
        obtain ⟨isRegistered, more⟩ := held (Nat.succ_ne_zero _)
        simp only [Function.update_self]
        exact ⟨isRegistered, by omega⟩
      · simp only [Ne.symm same, decide_false, Bool.false_eq_true, if_false,
          Nat.add_zero] at held
        simp only [Function.update_of_ne same]
        exact held busy

end Steps

section Masks

variable {rebalancing : Rebalancing Nat}
variable {online : List Nat}
variable {hart irq : Nat}
variable {system after : IrqSystem PlicHarts}

/-- The masks of a hart have these values. -/
def MasksAre
    (hart : Nat)
    (word : BitVec 32)
    (threshold : Fin 8)
    (harts : PlicHarts) : Prop :=
  harts.senable hart = word ∧ harts.threshold hart = threshold

/-- Polls leave the masks. -/
theorem polls_masksAre
    {word : BitVec 32}
    {threshold : Fin 8}
    (ctrlrs : system.info.ctrlrQue = [plicCtrlrOn online hart]) :
    ∀ ctrlr ∈ system.info.ctrlrQue, ∀ hw irq prio,
      MasksAre hart word threshold hw →
        MasksAre hart word threshold (ctrlr.irqIsPending hw irq prio).2 := by
  intro ctrlr member hw irq prio masks
  rw [ctrlrs, List.mem_singleton] at member
  have claims : ∀ plic : Plic,
      plic.claim.2.senable = plic.senable ∧
        plic.claim.2.threshold = plic.threshold := by
    intro plic
    rw [Plic.claim]
    cases plic.nextSource <;> exact ⟨rfl, rfl⟩
  rw [member]
  simp only [plicCtrlrOn, plicIrqIsPending, MasksAre, PlicHarts.withHart,
    Function.update_self]
  split_ifs
  · exact masks
  · exact ⟨(claims _).1.trans masks.1, (claims _).2.trans masks.2⟩

/-- The end of a dispatch writes the bit of its line alone, and the threshold. -/
theorem restoredHw_masksAre
    (small : irq < plicIrqMax)
    (threshold : Fin 8)
    (hw : PlicHarts) :
    MasksAre hart (1#32 <<< irq) threshold
      (restoredHw (plicCtrlrOn online hart) (some threshold)
        ((plicCtrlrOn online hart).enableIrq hw irq)) := by
  have inRange : threshold.val ≤ plicPrioMax :=
    Nat.le_of_lt_succ threshold.isLt
  simp [MasksAre, restoredHw, plicCtrlrOn, plicEnableIrq, plicSetPriority,
    PlicHarts.withHart, PlicHarts.onHart, Nat.not_le.mpr small, inRange]

/-- What a step is that leaves the masks to the dispatches. -/
theorem hartStep_of_leaves
    (ctrlrs : system.info.ctrlrQue = [plicCtrlrOn online hart])
    (backed : Backed system)
    {action : AnyAction PlicHarts}
    (leaves : LeavesMasks rebalancing hart system action)
    (stepped : irqSystemNext rebalancing system action = some after) :
    after.info.ctrlrQue = system.info.ctrlrQue ∧
      HartStep (plicCtrlrOn online hart) system after := by
  cases action with
  | interrupt =>
      obtain ⟨found, polled, -, interrupted⟩ :=
        interrupted_of_step rebalancing (polls_masksAre ctrlrs)
          ⟨rfl, rfl⟩ stepped
      cases interrupted with
      | nothing kept =>
          exact ⟨rfl, .quiet rfl (fun _ => id) fun _ _ => rfl⟩
      | passed kept isOf =>
          exact ⟨rfl, .quiet rfl (fun _ => id) fun _ _ => rfl⟩
      | running kept isOf registered =>
          refine ⟨rfl, .entered rfl registered isOf.referred ?_⟩
          simp [IrqSystem.running, dispatchFrame, IrqInfo.hold,
            IrqInfo.setLine]
  | handlerReturns index handled =>
      obtain rfl : index = 0 := leaves
      cases frames : system.frames with
      | nil =>
          simp [irqSystemNext, irqStep, frames] at stepped
      | cons frame rest =>
          have busy : system.underWay frame.irq ≠ 0 := by
            rw [IrqSystem.underWay, frames, List.countP_cons_of_pos (by simp)]
            exact Nat.succ_ne_zero _
          have refs : 3 < (system.info.irqs frame.irq).refs := by
            have more := (backed frame.irq busy).2
            omega
          rcases returned_of_step rebalancing ctrlrs frames refs stepped with
            ⟨place, rfl⟩ | rfl
          · refine ⟨rfl, .quiet ?_ (fun _ => id) fun _ _ => rfl⟩
            simp [IrqSystem.calls, frames]
          · refine ⟨rfl, .returned ?_ rfl rfl⟩
            simp [IrqSystem.calls, frames]
  | register line attr prio handler privateInfo =>
      have registered := (leaves after stepped).registered
      simp only [irqSystemNext, irqStep] at stepped
      split at stepped
      case h_1 => cases stepped
      all_goals
        rename_i called
        cases stepped
        obtain ⟨sameCtrlrs, refs⟩ := irqRegisterHandler_refs rebalancing called
        exact ⟨sameCtrlrs, .quiet rfl registered refs⟩
  | unregister line handler =>
      have registered := (leaves after stepped).registered
      simp only [irqSystemNext, irqStep] at stepped
      split at stepped
      case h_1 => cases stepped
      all_goals
        rename_i called
        cases stepped
        obtain ⟨sameCtrlrs, refs⟩ :=
          irqUnregisterHandler_refs rebalancing called
        refine ⟨sameCtrlrs, .quiet ?_ registered fun other isRegistered =>
          refs other (registered other isRegistered)⟩
      · rfl
      · simp only [IrqSystem.calls, List.map_map]
        refine List.map_congr_left fun frame _ => ?_
        simp only [Function.comp_apply, Frame.takenOff]
        split_ifs <;> rfl
  | device change =>
      cases stepped
      exact ⟨rfl, .quiet rfl (fun _ => id) fun _ _ => rfl⟩

/-- The state of a hart between two steps. -/
structure HartSound
    (online : List Nat)
    (hart : Nat)
    (system : IrqSystem PlicHarts) : Prop where
  ctrlrs : system.info.ctrlrQue = [plicCtrlrOn online hart]
  backed : Backed system

theorem HartSound.step
    (sound : HartSound online hart system)
    {action : AnyAction PlicHarts}
    (leaves : LeavesMasks rebalancing hart system action)
    (stepped : irqSystemNext rebalancing system action = some after) :
    HartSound online hart after ∧
      HartStep (plicCtrlrOn online hart) system after := by
  obtain ⟨sameCtrlrs, step⟩ :=
    hartStep_of_leaves sound.ctrlrs sound.backed leaves stepped
  exact ⟨⟨sameCtrlrs.trans sound.ctrlrs, step.backed sound.backed⟩, step⟩

/--
Until a dispatch returns, it is under way with the threshold that it found;
when it has returned, its line alone is enabled.
-/
def UntilReturned
    (hart irq depth : Nat)
    (threshold : Fin 8)
    (system : IrqSystem PlicHarts) : Prop :=
  (∃ inner outer,
      system.calls = inner ++ (irq, some threshold.val) :: outer ∧
        outer.length = depth) ∨
    system.calls.length = depth ∧
      MasksAre hart (1#32 <<< irq) threshold system.info.hw

/-- The steps in a dispatch end nothing but it and what was entered in it. -/
theorem UntilReturned.step
    {depth : Nat}
    {threshold : Fin 8}
    (small : irq < plicIrqMax)
    (still : UntilReturned hart irq depth threshold system)
    (inside : depth < system.calls.length)
    (step : HartStep (plicCtrlrOn online hart) system after) :
    UntilReturned hart irq depth threshold after := by
  rcases still with ⟨inner, outer, calls, isDepth⟩ | ⟨ended, -⟩
  · cases step with
    | quiet same =>
        exact .inl ⟨inner, outer, same.trans calls, isDepth⟩
    | entered entered =>
        exact .inl ⟨_ :: inner, outer, by rw [entered, calls]; rfl, isDepth⟩
    | returned returned irqs hw =>
        rw [calls] at returned
        cases inner with
        | nil =>
            obtain ⟨same, rest⟩ := List.cons_eq_cons.mp returned
            cases same
            refine .inr ⟨rest ▸ isDepth, ?_⟩
            rw [hw]
            exact restoredHw_masksAre small threshold _
        | cons call more =>
            obtain ⟨-, rest⟩ := List.cons_eq_cons.mp returned
            exact .inl ⟨more, outer, rest.symm, isDepth⟩
  · exact absurd ended (Nat.ne_of_gt inside)

/-- A line that is found is under way, or its dispatch has returned at once. -/
theorem Interrupted.untilReturned
    {word : BitVec 32}
    {threshold : Fin 8}
    (small : irq < plicIrqMax)
    (ctrlrs : system.info.ctrlrQue = [plicCtrlrOn online hart])
    (interrupted :
      Interrupted (MasksAre hart word threshold) system (some irq) after) :
    UntilReturned hart irq system.calls.length threshold after := by
  cases interrupted with
  | running kept isOf registered =>
      obtain rfl := ctrlrOf_single ctrlrs isOf.line
      refine .inl ⟨[], system.calls, ?_, rfl⟩
      rw [← kept.2]
      rfl
  | passed kept isOf =>
      obtain rfl := ctrlrOf_single ctrlrs isOf.line
      refine .inr ⟨rfl, ?_⟩
      rw [← kept.2]
      exact restoredHw_masksAre small _ _

/-- When a call that found a line has returned, its line alone is enabled. -/
theorem Handling.after_masksAre
    (small : irq < plicIrqMax)
    (handling : Handling rebalancing online hart irq) :
    MasksAre hart (1#32 <<< irq) (handling.before.info.hw.threshold hart)
      handling.after.info.hw := by
  have sound : HartSound online hart handling.before := by
    refine handling.ran.invariant ⟨handling.ctrlrs, fun line busy => ?_⟩
      fun sound stepped => (sound.step stepped.1 stepped.2).1
    rw [IrqSystem.underWay, handling.noFrame] at busy
    exact absurd rfl busy
  obtain ⟨found, polled, called, interrupted⟩ :=
    interrupted_of_step rebalancing (polls_masksAre sound.ctrlrs)
      ⟨rfl, rfl⟩ handling.interrupted
  rw [handling.found] at called
  cases called
  have leaves :
      LeavesMasks rebalancing hart handling.before
        (.interrupt : AnyAction PlicHarts) :=
    trivial
  have entered := sound.step leaves handling.interrupted
  let inCall : IrqSystem PlicHarts → Prop := fun system =>
    HartSound online hart system ∧
      UntilReturned hart irq handling.before.calls.length
        (handling.before.info.hw.threshold hart) system
  have served : inCall handling.after := by
    refine handling.served.invariant
      ⟨entered.1, interrupted.untilReturned small sound.ctrlrs⟩ ?_
    rintro _ _ _ ⟨sound, still⟩ ⟨leaves, inside, stepped⟩
    obtain ⟨later, step⟩ := sound.step leaves stepped
    refine ⟨later, still.step small ?_ step⟩
    rwa [IrqSystem.length_calls, IrqSystem.length_calls]
  rcases served.2 with ⟨inner, outer, calls, isDepth⟩ | ⟨-, masks⟩
  · have length := congrArg List.length calls
    rw [IrqSystem.length_calls, handling.returned, List.length_append,
      List.length_cons, isDepth, IrqSystem.length_calls] at length
    omega
  · exact masks

end Masks

/--
Configuring and disabling a line change only its bit; enabling it does when no
other line is enabled.  The masks are after a dispatch what they were before
it, whatever interrupts its handlers, when its line alone was enabled.
-/
theorem masksRight_iff
    (rebalancing : Rebalancing Nat)
    (online : List Nat)
    {hart irq : Nat}
    (small : irq < plicIrqMax) :
    (∀ harts operation,
      MaskOperation.OnlyBit online hart irq harts operation ↔
        (operation = .enable → NoOther harts hart irq)) ∧
      ∀ handling : Handling rebalancing online hart irq,
        handling.MasksKept ↔
          handling.before.info.hw.senable hart = 1#32 <<< irq := by
  refine ⟨fun harts operation => operation.onlyBit_iff small, fun handling => ?_⟩
  obtain ⟨word, threshold⟩ := handling.after_masksAre small
  rw [Handling.MasksKept, word, threshold]
  exact ⟨fun kept => kept.1.symm, fun alone => ⟨alone.symm, rfl⟩⟩

/-! ## Two lines of one hart -/

/-- There are eight levels of a threshold. -/
local instance neZero_thresholds : NeZero (8 : Nat) :=
  ⟨by decide⟩

/-- The registers before any line is configured. -/
def quietHarts : PlicHarts where
  prio := fun _ => 0
  senable := fun _ => 0
  threshold := fun _ => 0
  pending := fun _ => false
  claimed := fun _ => false

/-- The sources that wait change. -/
def hartsDevices (pending : Nat → Bool) : AnyAction PlicHarts :=
  .device ⟨fun harts => { harts with pending }, fun _ _ => False.elim⟩

/-- Lines are registered on the only hart, and the source of line 3 waits. -/
def linesIdle (lines : List Nat) : Option (IrqSystem PlicHarts) :=
  execute (irqSystemNext (Rebalancing.never Nat))
    (IrqSystem.initial [plicCtrlrOn [0] 0] quietHarts)
    (lines.map
        (fun irq =>
          (.register irq irqAttrEdge (irq / 5 + 1) 100 0 :
            AnyAction PlicHarts)) ++
      [hartsDevices fun source => decide (source = 3)])

/-- The handler of line 3 returns at once. -/
def handlerOnly : List (AnyAction PlicHarts) :=
  [.handlerReturns 0 true]

/-- The handler of line 3 is interrupted by line 10, while source 30 waits too. -/
def handlerInterrupted : List (AnyAction PlicHarts) :=
  [hartsDevices fun source => decide (source = 10 ∨ source = 30), .interrupt,
    .handlerReturns 0 true, .handlerReturns 0 true]

/-- A call that finds line 3 on the idle hart, and the steps in it, if it returns. -/
def lineHandled
    (nested : List (AnyAction PlicHarts))
    (idle : IrqSystem PlicHarts) : Option (IrqSystem PlicHarts) :=
  (irqSystemNext (Rebalancing.never Nat) idle
      (.interrupt : AnyAction PlicHarts)).bind fun entered =>
    execute
      (guardNext
        (fun system _ => idle.frames.length < system.frames.length)
        (irqSystemNext (Rebalancing.never Nat)))
      entered nested

/-- Such a call, from what its execution shows. -/
theorem exists_handling
    {nested : List (AnyAction PlicHarts)}
    {idle : IrqSystem PlicHarts}
    (leaves : ∀ action ∈ nested, ∀ system,
      LeavesMasks (Rebalancing.never Nat) 0 system action)
    (ctrlrs : idle.info.ctrlrQue = [plicCtrlrOn [0] 0])
    (noFrame : idle.frames.length = 0)
    (found :
      (findPending (Rebalancing.never Nat) idle.info.prioQue.toList.reverse
        idle.info).map (·.1) = some (some 3))
    (returned :
      (lineHandled nested idle).map (·.frames.length) = some 0) :
    ∃ handling : Handling (Rebalancing.never Nat) [0] 0 3,
      handling.before = idle := by
  obtain ⟨⟨line, polled⟩, scanned, isLine⟩ := Option.map_eq_some_iff.mp found
  cases isLine
  obtain ⟨after, handled, ended⟩ := Option.map_eq_some_iff.mp returned
  obtain ⟨entered, interrupted, executed⟩ := Option.bind_eq_some_iff.mp handled
  exact
    ⟨{ idle, ctrlrs
       noFrame := List.length_eq_zero_iff.mp noFrame
       earlier := []
       before := idle
       ran := .nil
       polled
       found := scanned
       entered, interrupted, nested, after
       served := (Run.guarded_of_execute executed).guarded_of_forall leaves
       returned := ended.trans noFrame.symm }, rfl⟩

/-- With line 3 alone the masks are kept. -/
theorem masksRight_aloneLine :
    ∃ handling : Handling (Rebalancing.never Nat) [0] 0 3,
      handling.before.info.hw.senable 0 = 8#32 ∧ handling.MasksKept := by
  obtain ⟨idle, isIdle⟩ : ∃ idle, linesIdle [3] = some idle :=
    Option.isSome_iff_exists.mp (by decide +kernel)
  have ctrlrs :
      (linesIdle [3]).map (·.info.ctrlrQue) = some [plicCtrlrOn [0] 0] :=
    rfl
  have facts :
      (linesIdle [3]).map (fun idle =>
        (idle.info.hw.senable 0, idle.frames.length,
          (findPending (Rebalancing.never Nat) idle.info.prioQue.toList.reverse
            idle.info).map (·.1),
          (lineHandled handlerOnly idle).map (·.frames.length))) =
        some (8#32, 0, some (some 3), some 0) := by
    decide +kernel
  rw [isIdle, Option.map_some, Option.some.injEq] at ctrlrs facts
  simp only [Prod.mk.injEq] at facts
  obtain ⟨word, noFrame, found, returned⟩ := facts
  obtain ⟨handling, rfl⟩ :=
    exists_handling (by simp [handlerOnly, LeavesMasks]) ctrlrs noFrame found
      returned
  exact ⟨handling, word,
    ((masksRight_iff (Rebalancing.never Nat) [0] (by decide)).2 handling).mpr
      word⟩

/--
With lines 10 and 30 enabled too, enabling line 3 disables them, and so does an
interrupt of line 3 that line 10 interrupts.
-/
theorem otherLine_disabled :
    (∃ harts, ¬ MaskOperation.OnlyBit [0] 0 3 harts .enable) ∧
      ∃ handling : Handling (Rebalancing.never Nat) [0] 0 3,
        handling.before.info.hw.senable 0 = 0x40000408#32 ∧
          handling.after.info.hw.senable 0 = 0x8#32 ∧
          ¬ handling.MasksKept := by
  obtain ⟨idle, isIdle⟩ : ∃ idle, linesIdle [30, 10, 3] = some idle :=
    Option.isSome_iff_exists.mp (by decide +kernel)
  have ctrlrs :
      (linesIdle [30, 10, 3]).map (·.info.ctrlrQue) = some [plicCtrlrOn [0] 0] :=
    rfl
  have facts :
      (linesIdle [30, 10, 3]).map (fun idle =>
        (idle.info.hw.senable 0, idle.frames.length,
          (findPending (Rebalancing.never Nat) idle.info.prioQue.toList.reverse
            idle.info).map (·.1),
          (lineHandled handlerInterrupted idle).map (·.frames.length))) =
        some (0x40000408#32, 0, some (some 3), some 0) := by
    decide +kernel
  rw [isIdle, Option.map_some, Option.some.injEq] at ctrlrs facts
  simp only [Prod.mk.injEq] at facts
  obtain ⟨word, noFrame, found, returned⟩ := facts
  have leaves : ∀ action ∈ handlerInterrupted, ∀ system,
      LeavesMasks (Rebalancing.never Nat) 0 system action := by
    have devices : ∀ pending system,
        LeavesMasks (Rebalancing.never Nat) 0 system (hartsDevices pending) :=
      fun _ _ => ⟨rfl, rfl, fun _ => id⟩
    intro action member
    simp only [handlerInterrupted, List.mem_cons, List.not_mem_nil,
      or_false] at member
    rcases member with rfl | rfl | rfl | rfl
    · exact devices _
    · exact fun _ => trivial
    · exact fun _ => rfl
    · exact fun _ => rfl
  obtain ⟨handling, rfl⟩ :=
    exists_handling leaves ctrlrs noFrame found returned
  have masks := handling.after_masksAre (by decide)
  refine ⟨⟨handling.before.info.hw, fun only => ?_⟩, handling, word,
    masks.1, fun kept => ?_⟩
  · have alone :=
      (MaskOperation.enable_onlyBit_iff (by decide)).mp only 10 (by decide)
        (by decide)
    rw [word] at alone
    exact absurd alone (by decide)
  · have same := masks.1.symm.trans (kept.1.trans word)
    exact absurd same (by decide)

end RiscvWorkshop.Irq
