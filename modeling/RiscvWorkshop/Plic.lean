import Mathlib
import RiscvWorkshop.IrqScan

namespace RiscvWorkshop.Irq

open SearchTree

/-!
# The sources that the platform controller's polls claim

To ask the platform-level interrupt controller whether a line is pending is to
read its claim register, which claims the source it returns.  A source that is
not the line asked for is then blocked, and nothing writes its number back.
-/

/-- `PLIC_IRQ_MAX`. -/
def plicIrqMax : Nat := 32

/-- `PLIC_PRIO_MIN`. -/
def plicPrioMin : Nat := 1

/-- `PLIC_PRIO_MAX`. -/
def plicPrioMax : Nat := 7

/--
The registers as the hart sees them, the sources that wait, and those that are
claimed and not yet completed.
-/
structure Plic where
  prio : Nat → Nat
  senable : BitVec 32
  threshold : Fin 8
  pending : Nat → Bool
  claimed : Nat → Bool

namespace Plic

/-- A source that a read of the claim register may return. -/
def Claimable
    (plic : Plic)
    (source : Nat) : Prop :=
  plic.pending source = true ∧
    plic.senable.getLsbD source = true ∧
    0 < plic.prio source ∧
    plic.claimed source = false

instance
    (plic : Plic)
    (source : Nat) : Decidable (plic.Claimable source) :=
  inferInstanceAs (Decidable (_ ∧ _ ∧ _ ∧ _))

/-- The source of the highest priority among these, the first of several. -/
def nextSource (plic : Plic) : Option Nat :=
  ((List.range' 1 (plicIrqMax - 1)).filter
    fun source => decide (plic.Claimable source)).argmax plic.prio

/-- A read of the claim register returns and claims a source, or returns 0. -/
def claim (plic : Plic) : Nat × Plic :=
  match plic.nextSource with
  | none => (0, plic)
  | some source =>
      (source,
        { plic with
          pending := Function.update plic.pending source false
          claimed := Function.update plic.claimed source true })

/-- A write to the claim register completes a source. -/
def complete
    (plic : Plic)
    (source : Nat) : Plic :=
  { plic with claimed := Function.update plic.claimed source false }

end Plic

/-- `plic_config_irq`. -/
def plicConfigIrq
    (plic : Plic)
    (irq attr prio : Nat) : Except Errno Plic :=
  if irq ≥ plicIrqMax then
    .error .einval
  else if prio > plicPrioMax ∨ prio < plicPrioMin then
    .error .einval
  else if attr &&& irqAttrEdge = 0 then
    .error .einval
  else
    .ok
      { plic with
        prio := Function.update plic.prio irq prio
        senable := plic.senable ||| 1#32 <<< irq }

/-- `plic_irq_is_pending`; the error code it returns reads as true. -/
def plicIrqIsPending
    (plic : Plic)
    (irq _prio : Nat) : Bool × Plic :=
  if irq ≥ plicIrqMax then
    (true, plic)
  else
    let (claimIrq, plic) := plic.claim
    (decide (claimIrq = irq), plic)

/-- `plic_enable_irq`: the register is written, not only the bit set. -/
def plicEnableIrq
    (plic : Plic)
    (irq : Nat) : Plic :=
  if irq ≥ plicIrqMax then plic
  else { plic with senable := 1#32 <<< irq }

/-- `plic_disable_irq`. -/
def plicDisableIrq
    (plic : Plic)
    (irq : Nat) : Plic :=
  if irq ≥ plicIrqMax then plic
  else { plic with senable := plic.senable &&& ~~~(1#32 <<< irq) }

/-- `plic_get_priority`. -/
def plicGetPriority (plic : Plic) : Nat :=
  plic.threshold

/-- `plic_set_priority`, by `rv64_plic_set_priority_mask`. -/
def plicSetPriority
    (plic : Plic)
    (prio : Nat) : Plic :=
  if small : prio ≤ plicPrioMax then
    { plic with threshold := ⟨prio, Nat.lt_succ_of_le small⟩ }
  else
    plic

/-- `plic_eoi`. -/
def plicEoi
    (plic : Plic)
    (irq : Nat) : Plic :=
  if irq ≥ plicIrqMax then plic
  else plic.complete irq

/-- `plic_ctrlr`. -/
def plicCtrlr : IrqCtrlr Plic where
  minIrq := 0
  maxIrq := plicIrqMax
  configIrq := plicConfigIrq
  irqIsPending := plicIrqIsPending
  enableIrq := plicEnableIrq
  disableIrq := plicDisableIrq
  priMask := some (plicGetPriority, plicSetPriority)
  eoi := plicEoi

/-- The calls of a run; devices change the sources that wait. -/
inductive PlicCall where
  | register (irq attr prio handler privateInfo : Nat)
  | unregister (irq handler : Nat)
  | handle
  | devices (pending : Nat → Bool)

/-- A call as the interrupt management sees it. -/
def PlicCall.toIrqCall
    (plic : Plic) : PlicCall → IrqCall Plic
  | .register irq attr prio handler privateInfo =>
      .register irq attr prio handler privateInfo
  | .unregister irq handler => .unregister irq handler
  | .handle => .handle
  | .devices pending => .device { plic with pending }

/-- One call. -/
def plicNext
    (rebalancing : Rebalancing Nat)
    (serve : Serve Plic)
    (info : IrqInfo Plic)
    (call : PlicCall) : Option (IrqInfo Plic) :=
  irqNext rebalancing serve info (call.toIrqCall info.hw)

/-- The lines in the order in which they are asked. -/
def IrqInfo.scanOrder
    {Hw : Type}
    (info : IrqInfo Hw) : List Nat :=
  info.prioQue.toList.reverse

/-- The source that is claimed next, if any, is the line that is asked first. -/
def FirstLineNext
    (info : IrqInfo Plic) : PlicCall → Prop
  | .handle =>
      ∀ source ∈ info.hw.nextSource,
        ∀ line ∈ info.scanOrder.head?,
          source = line
  | .register .. => True
  | .unregister .. => True
  | .devices _ => True

instance
    (info : IrqInfo Plic) :
    ∀ call, Decidable (FirstLineNext info call)
  | .handle =>
      inferInstanceAs (Decidable (∀ source ∈ _, ∀ line ∈ _, _ = _))
  | .register .. => inferInstanceAs (Decidable True)
  | .unregister .. => inferInstanceAs (Decidable True)
  | .devices _ => inferInstanceAs (Decidable True)

/-- A source that the polls of one call claim. -/
def ClaimedByPolls
    (info : IrqInfo Plic)
    (source : Nat) : Prop :=
  info.hw.claimed source = false ∧
    (pollLines info info.scanOrder info.hw).2.claimed source = true

/-- Every source claimed in a call is dispatched and completed in it. -/
structure NothingLost
    (info after : IrqInfo Plic)
    (dispatch : Option Dispatch) : Prop where
  dispatched : ∀ source,
    ClaimedByPolls info source →
      info.Registered source ∧
        ∃ found,
          dispatch = some found ∧
            found.irq = source ∧
            found.FirstHandlers (info.irqs source).handlers
  completed : ∀ source,
    ClaimedByPolls info source →
      after.hw.claimed source = false

/-! ## What the operations do to the claims -/

namespace Plic

/-- Between two calls no source is claimed. -/
def Unclaimed (plic : Plic) : Prop :=
  ∀ source, plic.claimed source = false

/-- The next source is a number of the controller that can be claimed. -/
theorem nextSource_some
    {plic : Plic}
    {source : Nat}
    (next : plic.nextSource = some source) :
    1 ≤ source ∧ source < plicIrqMax ∧ plic.Claimable source := by
  have member := List.argmax_mem (Option.mem_def.mpr next)
  rw [List.mem_filter, List.mem_range'_1] at member
  obtain ⟨⟨least, most⟩, claimable⟩ := member
  refine ⟨least, ?_, of_decide_eq_true claimable⟩
  rw [plicIrqMax] at most ⊢
  omega

end Plic

@[simp] theorem plicEnableIrq_claimed
    (plic : Plic)
    (irq : Nat) :
    (plicEnableIrq plic irq).claimed = plic.claimed := by
  rw [plicEnableIrq]
  split <;> rfl

@[simp] theorem plicDisableIrq_claimed
    (plic : Plic)
    (irq : Nat) :
    (plicDisableIrq plic irq).claimed = plic.claimed := by
  rw [plicDisableIrq]
  split <;> rfl

@[simp] theorem plicSetPriority_claimed
    (plic : Plic)
    (prio : Nat) :
    (plicSetPriority plic prio).claimed = plic.claimed := by
  rw [plicSetPriority]
  split <;> rfl

/-- The notification of the end completes the line. -/
theorem plicEoi_claimed
    (plic : Plic)
    (irq source : Nat) :
    (plicEoi plic irq).claimed source =
      if irq < plicIrqMax ∧ source = irq then false
      else plic.claimed source := by
  rw [plicEoi]
  by_cases big : irq ≥ plicIrqMax
  · rw [if_pos big, if_neg fun both => absurd both.1 (Nat.not_lt.mpr big)]
  · rw [if_neg big]
    by_cases same : source = irq
    · simp [Plic.complete, same, Nat.not_le.mp big]
    · simp [Plic.complete, same]

theorem plicConfigIrq_claimed
    {plic after : Plic}
    {irq attr prio : Nat}
    (configured : plicConfigIrq plic irq attr prio = .ok after) :
    after.claimed = plic.claimed := by
  rw [plicConfigIrq] at configured
  split_ifs at configured
  cases configured
  rfl

/-- The release of a line leaves the claims. -/
theorem releasedHw_claimed
    (prio irq : Nat)
    (plic : Plic) :
    (releasedHw plicCtrlr prio irq plic).claimed = plic.claimed := by
  simp only [releasedHw, plicCtrlr, plicDisableIrq_claimed]
  split <;> simp

/-- Before the handlers run, the line is completed. -/
theorem completedHw_claimed
    (prio irq : Nat)
    (plic : Plic) :
    (completedHw plicCtrlr prio irq plic).claimed =
      (plicEoi plic irq).claimed := by
  simp only [completedHw, plicCtrlr, plicEoi]
  split <;>
    simp [Plic.complete]

theorem reopenedHw_claimed
    (irq : Nat)
    (before plic : Plic) :
    (reopenedHw plicCtrlr irq before plic).claimed = plic.claimed := by
  simp only [reopenedHw, plicCtrlr, plicSetPriority_claimed,
    plicEnableIrq_claimed]

/-- Handlers that neither claim nor complete a source. -/
def KeepsClaims (serve : Serve Plic) : Prop :=
  ∀ irq ent plic, (serve irq ent plic).2.claimed = plic.claimed

theorem KeepsClaims.invokeHandlers
    {serve : Serve Plic}
    (keeps : KeepsClaims serve)
    (irq : Nat)
    (handlers : List IrqHandlerEnt)
    (plic : Plic) :
    (invokeHandlers serve irq handlers plic).2.2.claimed = plic.claimed := by
  induction handlers generalizing plic with
  | nil =>
      rfl
  | cons ent rest inductionHypothesis =>
      have first := keeps irq ent plic
      rw [Irq.invokeHandlers]
      cases served : serve irq ent plic with
      | mk handled after =>
          rw [served] at first
          cases handled with
          | true => exact first
          | false => exact (inductionHypothesis after).trans first

/-! ## Polling -/

section Polling

variable {info : IrqInfo Plic}

/-- The lines of the only controller are its lines. -/
theorem ctrlrOf_plic
    {irq : Nat}
    (ctrlrs : info.ctrlrQue = [plicCtrlr])
    (sound : InfoSound info)
    (registered : info.Registered irq) :
    info.ctrlrOf irq = some plicCtrlr := by
  obtain ⟨ctrlr, found⟩ := sound.ctrlr irq registered
  obtain ⟨place, -, atPlace⟩ := Option.bind_eq_some_iff.mp found
  rw [ctrlrs] at atPlace
  rw [found, List.mem_singleton.mp (List.mem_of_getElem? atPlace)]

theorem mem_scanOrder
    (sound : InfoSound info)
    (irq : Nat) :
    irq ∈ info.scanOrder ↔ info.Registered irq := by
  rw [IrqInfo.scanOrder, List.mem_reverse, sound.listed]

/-- Where no source can be claimed, polls change nothing. -/
theorem pollLines_idle
    {lines : List Nat}
    {plic : Plic}
    (served : ∀ irq ∈ lines, info.ctrlrOf irq = some plicCtrlr)
    (idle : plic.nextSource = none) :
    (pollLines info lines plic).2 = plic := by
  induction lines with
  | nil =>
      rfl
  | cons irq rest inductionHypothesis =>
      rw [pollLines, served irq List.mem_cons_self]
      simp only [plicCtrlr, plicIrqIsPending, Plic.claim, idle]
      split_ifs
      · rfl
      · by_cases isLine : 0 = irq
        · simp [isLine]
        · simp only [isLine, decide_false]
          exact inductionHypothesis fun line member =>
            served line (List.mem_cons_of_mem irq member)

/-- A claimed source stays claimed, and is not returned again. -/
theorem claim_claimed
    {plic : Plic}
    {source : Nat}
    (positive : 1 ≤ source)
    (claimed : plic.claimed source = true) :
    plic.claim.1 ≠ source ∧ plic.claim.2.claimed source = true := by
  rw [Plic.claim]
  cases next : plic.nextSource with
  | none =>
      exact ⟨Nat.ne_of_lt positive, claimed⟩
  | some other =>
      obtain ⟨-, -, -, -, -, free⟩ := Plic.nextSource_some next
      have different : other ≠ source := by
        rintro rfl
        rw [claimed] at free
        cases free
      exact ⟨different, by simp [different.symm, claimed]⟩

/-- Once a source is claimed, no later poll finds its line. -/
theorem pollLines_claimed
    {lines : List Nat}
    {plic : Plic}
    {source : Nat}
    (served : ∀ irq ∈ lines, info.ctrlrOf irq = some plicCtrlr)
    (positive : 1 ≤ source)
    (small : source < plicIrqMax)
    (claimed : plic.claimed source = true) :
    (pollLines info lines plic).1 ≠ some source ∧
      (pollLines info lines plic).2.claimed source = true := by
  induction lines generalizing plic with
  | nil =>
      exact ⟨nofun, claimed⟩
  | cons irq rest inductionHypothesis =>
      obtain ⟨different, still⟩ := claim_claimed positive claimed
      rw [pollLines, served irq List.mem_cons_self]
      simp only [plicCtrlr, plicIrqIsPending]
      split_ifs with big
      · refine ⟨fun same => ?_, claimed⟩
        cases same
        omega
      · by_cases isLine : plic.claim.1 = irq
        · simp only [isLine, decide_true]
          refine ⟨fun same => ?_, still⟩
          cases same
          exact different isLine
        · simp only [isLine, decide_false]
          exact inductionHypothesis
            (fun line member =>
              served line (List.mem_cons_of_mem irq member)) still

theorem served_scanOrder
    (ctrlrs : info.ctrlrQue = [plicCtrlr])
    (sound : InfoSound info) :
    ∀ irq ∈ info.scanOrder, info.ctrlrOf irq = some plicCtrlr :=
  fun irq member => ctrlrOf_plic ctrlrs sound ((mem_scanOrder sound irq).mp member)

/-- The first poll claims the next source, whatever line it asks for. -/
theorem pollLines_cons
    {line source : Nat}
    {rest : List Nat}
    (served : info.ctrlrOf line = some plicCtrlr)
    (small : line < plicIrqMax)
    (next : info.hw.nextSource = some source) :
    pollLines info (line :: rest) info.hw =
      if source = line then (some line, info.hw.claim.2)
      else pollLines info rest info.hw.claim.2 := by
  rw [pollLines, served]
  simp only [plicCtrlr, plicIrqIsPending, Nat.not_le.mpr small, if_false,
    Plic.claim, next]
  split_ifs with isLine
  · simp [isLine]
  · simp [isLine]

/-- What a read of the claim register claims. -/
theorem claim_next
    {plic : Plic}
    {source : Nat}
    (next : plic.nextSource = some source) :
    plic.claim.2.claimed = Function.update plic.claimed source true := by
  rw [Plic.claim, next]

/--
When the next source is the first line, the polls claim nothing or claim the
source of the line that they find.
-/
theorem polls_of_firstLineNext
    (ctrlrs : info.ctrlrQue = [plicCtrlr])
    (sound : InfoSound info)
    (small : ∀ irq, info.Registered irq → irq < plicIrqMax)
    (firstNext : FirstLineNext info .handle) :
    (pollLines info info.scanOrder info.hw).2.claimed = info.hw.claimed ∨
      ∃ source,
        source < plicIrqMax ∧
          (pollLines info info.scanOrder info.hw).1 = some source ∧
          (pollLines info info.scanOrder info.hw).2.claimed =
            Function.update info.hw.claimed source true := by
  have served := served_scanOrder ctrlrs sound
  cases next : info.hw.nextSource with
  | none =>
      rw [pollLines_idle served next]
      exact .inl rfl
  | some source =>
      cases order : info.scanOrder with
      | nil =>
          exact .inl rfl
      | cons line rest =>
          have isLine : source = line :=
            firstNext source next line (by rw [order]; rfl)
          have member : line ∈ info.scanOrder := by
            rw [order]
            exact List.mem_cons_self
          have lineSmall := small line ((mem_scanOrder sound line).mp member)
          rw [pollLines_cons (served line member) lineSmall next,
            if_pos isLine]
          exact .inr ⟨source, isLine ▸ lineSmall, congrArg some isLine.symm,
            claim_next next⟩

/-- Any other next source is claimed, and its line is not found. -/
theorem polls_lose
    {source line : Nat}
    (ctrlrs : info.ctrlrQue = [plicCtrlr])
    (sound : InfoSound info)
    (small : ∀ irq, info.Registered irq → irq < plicIrqMax)
    (next : info.hw.nextSource = some source)
    (first : info.scanOrder.head? = some line)
    (different : source ≠ line) :
    ClaimedByPolls info source ∧
      (pollLines info info.scanOrder info.hw).1 ≠ some source := by
  have served := served_scanOrder ctrlrs sound
  obtain ⟨positive, inRange, -, -, -, free⟩ := Plic.nextSource_some next
  cases order : info.scanOrder with
  | nil =>
      rw [order] at first
      cases first
  | cons head rest =>
      rw [order] at first
      cases first
      rw [order] at served
      have lineSmall : line < plicIrqMax := by
        refine small line ((mem_scanOrder sound line).mp ?_)
        rw [order]
        exact List.mem_cons_self
      have afterFirst :
          info.hw.claim.2.claimed source = true := by
        rw [claim_next next, Function.update_self]
      obtain ⟨notFound, claimed⟩ :=
        pollLines_claimed
          (fun irq member => served irq (List.mem_cons_of_mem line member))
          positive inRange afterFirst
      rw [ClaimedByPolls, order,
        pollLines_cons (served line List.mem_cons_self) lineSmall next,
        if_neg different]
      exact ⟨⟨free, claimed⟩, notFound⟩

end Polling

/-! ## One call -/

section Calls

variable (rebalancing : Rebalancing Nat)
variable {serve : Serve Plic}
variable {info : IrqInfo Plic}

/-- What a call dispatches and completes is the line its polls find. -/
theorem irqHandleIrq_polled
    (keeps : KeepsClaims serve)
    (ctrlrs : info.ctrlrQue = [plicCtrlr])
    (sound : InfoSound info) :
    ∃ dispatch after,
      irqHandleIrq rebalancing serve info = some (dispatch, after) ∧
        match pollLines info info.scanOrder info.hw with
        | (none, plic) =>
            dispatch = none ∧ after.hw.claimed = plic.claimed
        | (some irq, plic) =>
            info.Registered irq ∧
              (∃ found,
                dispatch = some found ∧
                  found.irq = irq ∧
                  found.FirstHandlers (info.irqs irq).handlers) ∧
              after.hw.claimed = (plicEoi plic irq).claimed := by
  have scanned := scanLines_poll rebalancing serve info.scanOrder info
    sound.served
  rw [irqHandleIrq]
  change ∃ dispatch after,
    scanLines rebalancing serve info.scanOrder info = some (dispatch, after) ∧ _
  rw [scanned]
  cases polled : pollLines info info.scanOrder info.hw with
  | mk line plic =>
      cases line with
      | none =>
          exact ⟨none, _, rfl, rfl, rfl⟩
      | some irq =>
          have registered :=
            (mem_scanOrder sound irq).mp (pollLines_mem polled)
          have found := ctrlrOf_plic ctrlrs sound registered
          have referred : (info.irqs irq).refs ≠ 0 := by
            rw [sound.refs irq registered]
            exact Nat.one_ne_zero
          have called := invokeHandlers_called serve irq
            (info.irqs irq).handlers
            (completedHw plicCtrlr (info.prioOf irq) irq plic)
          simp only
          rw [handleIrqLine_eq rebalancing serve (sound.small irq registered)
            referred found]
          refine ⟨_, _, rfl, registered,
            ⟨_, rfl, rfl, called.1, fun some_there none_called => ?_,
              called.2.2⟩, ?_⟩
          · exact some_there (called.2.1 none_called)
          · rw [reopenedHw_claimed, keeps.invokeHandlers, completedHw_claimed]

/-- A call loses nothing exactly when the next source is the first line. -/
theorem irqHandleIrq_nothingLost_iff
    (keeps : KeepsClaims serve)
    (ctrlrs : info.ctrlrQue = [plicCtrlr])
    (sound : InfoSound info)
    (small : ∀ irq, info.Registered irq → irq < plicIrqMax)
    (unclaimed : info.hw.Unclaimed) :
    ∃ dispatch after,
      irqHandleIrq rebalancing serve info = some (dispatch, after) ∧
        (FirstLineNext info .handle → after.hw.Unclaimed) ∧
        (NothingLost info after dispatch ↔ FirstLineNext info .handle) := by
  obtain ⟨dispatch, after, handled, outcome⟩ :=
    irqHandleIrq_polled rebalancing keeps ctrlrs sound
  refine ⟨dispatch, after, handled, ?_⟩
  cases polled : pollLines info info.scanOrder info.hw with
  | mk found plic =>
      have completes :
          FirstLineNext info .handle →
            after.hw.Unclaimed ∧
              ∀ source, ClaimedByPolls info source → found = some source := by
        intro firstNext
        have claims := polls_of_firstLineNext ctrlrs sound small firstNext
        rw [polled] at claims outcome
        rcases claims with none_claimed | ⟨source, inRange, isFound, only⟩
        · refine ⟨?_, fun source ⟨_, claimed⟩ => ?_⟩
          · cases found with
            | none =>
                intro source
                rw [outcome.2, none_claimed, unclaimed]
            | some irq =>
                intro source
                rw [outcome.2.2, plicEoi_claimed, none_claimed, unclaimed,
                  ite_self]
          · rw [polled, none_claimed, unclaimed] at claimed
            cases claimed
        · simp only at isFound
          subst isFound
          refine ⟨fun other => ?_, fun other ⟨_, claimed⟩ => ?_⟩
          · rw [outcome.2.2, plicEoi_claimed, only]
            by_cases same : other = source
            · rw [if_pos ⟨inRange, same⟩]
            · rw [if_neg fun both => same both.2, Function.update_of_ne same,
                unclaimed]
          · rw [polled, only, Function.update_apply, unclaimed] at claimed
            split at claimed
            case isTrue same => rw [same]
            case isFalse => cases claimed
      refine ⟨fun firstNext => (completes firstNext).1, ?_, ?_⟩
      · rintro ⟨dispatched, -⟩ source next line first
        by_contra different
        obtain ⟨lost, notFound⟩ :=
          polls_lose ctrlrs sound small next first different
        obtain ⟨-, other, isDispatch, same, -⟩ := dispatched source lost
        rw [polled] at outcome notFound
        subst isDispatch
        cases found with
        | none =>
            cases outcome.1
        | some irq =>
            obtain ⟨-, ⟨called, shape, isLine, -⟩, -⟩ := outcome
            cases shape
            exact notFound (congrArg some (isLine.symm.trans same))
      · intro firstNext
        obtain ⟨clear, claims⟩ := completes firstNext
        refine ⟨fun source claimed => ?_, fun source _ => clear source⟩
        rw [polled, claims source claimed] at outcome
        exact ⟨outcome.1, outcome.2.1⟩

/-! ## Runs -/

variable {after : IrqInfo Plic}

/-- The invariants of every state in which no call is in progress. -/
structure PlicSound (info : IrqInfo Plic) : Prop where
  ctrlrs : info.ctrlrQue = [plicCtrlr]
  sound : InfoSound info
  small : ∀ irq, info.Registered irq → irq < plicIrqMax
  unclaimed : info.hw.Unclaimed

theorem SameLines.small
    {bound : Nat}
    (same : SameLines info after)
    (small : ∀ irq, info.Registered irq → irq < bound) :
    ∀ irq, after.Registered irq → irq < bound :=
  fun irq registered => small irq ((same.registered irq).mp registered)

/-- A controller that the interrupt management finds is the only one. -/
theorem eq_plicCtrlr
    {ctrlr : IrqCtrlr Plic}
    {place : Nat}
    (ctrlrs : info.ctrlrQue = [plicCtrlr])
    (found : info.ctrlrQue[place]? = some ctrlr) :
    ctrlr = plicCtrlr := by
  rw [ctrlrs] at found
  exact List.mem_singleton.mp (List.mem_of_getElem? found)

theorem plicConfigIrq_small
    {plic configured : Plic}
    {irq attr prio : Nat}
    (accepted : plicConfigIrq plic irq attr prio = .ok configured) :
    irq < plicIrqMax := by
  rw [plicConfigIrq] at accepted
  split_ifs at accepted with big
  exact Nat.not_le.mp big

/-- A call that meets the condition keeps the invariants. -/
theorem PlicSound.step
    {call : PlicCall}
    (keeps : KeepsClaims serve)
    (plicSound : PlicSound info)
    (stepped :
      Guarded FirstLineNext (StepOf (plicNext rebalancing serve)) info call
        after) :
    PlicSound after := by
  obtain ⟨ctrlrs, sound, small, unclaimed⟩ := plicSound
  obtain ⟨firstNext, called⟩ := stepped
  rw [StepOf, plicNext] at called
  have soundAfter := irqNext_sound rebalancing serve sound called
  cases call with
  | register irq attr prio handler privateInfo =>
      obtain ⟨⟨result, last⟩, registered, same⟩ :=
        Option.map_eq_some_iff.mp called
      cases same
      rcases irqRegisterHandler_cases rebalancing sound registered with
        ⟨sameLines, sameHw⟩ |
          ⟨place, ctrlr, before, behind, located, found, configured, entered⟩
      · exact ⟨sameLines.ctrlrQue.trans ctrlrs, soundAfter,
          sameLines.small small, by rw [sameHw]; exact unclaimed⟩
      · rw [eq_plicCtrlr ctrlrs found] at configured
        refine ⟨entered.ctrlrQue.trans ctrlrs, soundAfter,
          fun other isRegistered => ?_, fun source => ?_⟩
        · by_cases same : other = irq
          · exact same ▸ plicConfigIrq_small configured
          · exact small other
              ((registered_congr (entered.others other same)).mp isRegistered)
        · rw [plicConfigIrq_claimed configured, unclaimed]
  | unregister irq handler =>
      obtain ⟨⟨result, last⟩, unregistered, same⟩ :=
        Option.map_eq_some_iff.mp called
      cases same
      rcases irqUnregisterHandler_cases rebalancing sound unregistered with
        ⟨sameLines, sameHw⟩ | ⟨ctrlr, found, released, left⟩
      · exact ⟨sameLines.ctrlrQue.trans ctrlrs, soundAfter,
          sameLines.small small, by rw [sameHw]; exact unclaimed⟩
      · obtain ⟨place, -, atPlace⟩ := Option.bind_eq_some_iff.mp found
        rw [eq_plicCtrlr ctrlrs atPlace] at released
        refine ⟨left.ctrlrQue.trans ctrlrs, soundAfter,
          fun other isRegistered => ?_, fun source => ?_⟩
        · have different : other ≠ irq := fun same =>
            left.gone (same ▸ isRegistered)
          exact small other
            ((registered_congr (left.others other different)).mp isRegistered)
        · rw [released, releasedHw_claimed, unclaimed]
  | handle =>
      obtain ⟨dispatch, last, handled, clear, -⟩ :=
        irqHandleIrq_nothingLost_iff rebalancing keeps ctrlrs sound small
          unclaimed
      obtain ⟨other, hw, scanned⟩ :=
        scanLines_hw rebalancing serve _ info sound.served
      have sameResult := handled.symm.trans scanned
      rw [PlicCall.toIrqCall, irqNext, handled] at called
      cases called
      cases sameResult
      exact ⟨ctrlrs, soundAfter, small, clear firstNext⟩
  | devices pending =>
      cases called
      exact ⟨ctrlrs, soundAfter, small, unclaimed⟩

/-- Before the first registration no source is claimed. -/
theorem irqInit_plicSound
    {plic : Plic}
    (unclaimed : plic.Unclaimed) :
    PlicSound (irqInit [plicCtrlr] plic) :=
  ⟨rfl, irqInit_sound [plicCtrlr] plic, fun _ registered =>
    absurd rfl registered, unclaimed⟩

/--
In every run in which each call finds the next source to be the first line,
no source is left claimed between two calls; and the next call loses nothing
exactly when it meets this condition too.
-/
theorem claimed_sources_completed
    {plic : Plic}
    {calls : List PlicCall}
    (keeps : KeepsClaims serve)
    (unclaimed : plic.Unclaimed)
    (run :
      Run (Guarded FirstLineNext (StepOf (plicNext rebalancing serve)))
        (irqInit [plicCtrlr] plic) calls info) :
    info.hw.Unclaimed ∧
      ∃ dispatch after,
        irqHandleIrq rebalancing serve info = some (dispatch, after) ∧
          (NothingLost info after dispatch ↔ FirstLineNext info .handle) := by
  have plicSound : PlicSound info :=
    run.invariant (irqInit_plicSound unclaimed)
      fun sound stepped => sound.step rebalancing keeps stepped
  obtain ⟨dispatch, after, handled, -, lost⟩ :=
    irqHandleIrq_nothingLost_iff rebalancing keeps plicSound.ctrlrs
      plicSound.sound plicSound.small plicSound.unclaimed
  exact ⟨plicSound.unclaimed, dispatch, after, handled, lost⟩

end Calls

/-! ## Two lines -/

/-- A hart with nothing claimed and nothing waiting. -/
def quietPlic : Plic where
  prio := fun _ => 0
  senable := 0
  threshold := 0
  pending := fun _ => false
  claimed := fun _ => false

/-- Handlers that handle every interrupt and leave the registers alone. -/
def servePlic : Serve Plic :=
  fun _ _ plic => (true, plic)

/-- Two lines, one of which is pending when an interrupt is handled. -/
def twoLineCalls (source : Nat) : List PlicCall :=
  [.register 3 irqAttrEdge 1 100 0, .register 10 irqAttrEdge 5 200 0,
    .devices (fun line => decide (line = source))]

/-- The source that is claimed is line 10, which is asked first. -/
theorem claimed_sources_completed_firstLine :
    ∃ info,
      execute (guardNext FirstLineNext (plicNext (Rebalancing.never Nat) servePlic))
          (irqInit [plicCtrlr] quietPlic) (twoLineCalls 10) = some info ∧
        info.hw.nextSource = some 10 ∧
        ∃ dispatch after,
          irqHandleIrq (Rebalancing.never Nat) servePlic info = some (dispatch, after) ∧
            NothingLost info after dispatch := by
  obtain ⟨info, executed⟩ : ∃ info,
      execute (guardNext FirstLineNext (plicNext (Rebalancing.never Nat) servePlic))
        (irqInit [plicCtrlr] quietPlic) (twoLineCalls 10) = some info :=
    Option.isSome_iff_exists.mp (by decide +kernel)
  have facts :
      (execute (guardNext FirstLineNext (plicNext (Rebalancing.never Nat) servePlic))
        (irqInit [plicCtrlr] quietPlic) (twoLineCalls 10)).map
          (fun info =>
            (info.hw.nextSource, decide (FirstLineNext info .handle))) =
        some (some 10, true) := by
    decide +kernel
  rw [executed, Option.map_some, Option.some.injEq] at facts
  simp only [Prod.mk.injEq, decide_eq_true_eq] at facts
  obtain ⟨-, dispatch, after, handled, lost⟩ :=
    claimed_sources_completed (Rebalancing.never Nat) (fun _ _ _ => rfl) (fun _ => rfl)
      (Run.guarded_of_execute executed)
  exact ⟨info, executed, facts.1, dispatch, after, handled, lost.mpr facts.2⟩

/--
Line 3 is pending, and line 10 of a higher priority is asked first: this claims
source 3, which no later poll returns, and no line is dispatched.
-/
theorem source_of_second_line_lost :
    ((execute (plicNext (Rebalancing.never Nat) servePlic) (irqInit [plicCtrlr] quietPlic)
        (twoLineCalls 3)).bind fun info =>
      (irqHandleIrq (Rebalancing.never Nat) servePlic info).map fun (dispatch, after) =>
        (info.hw.claimed 3, dispatch, after.hw.claimed 3,
          (irqHandleIrq (Rebalancing.never Nat) servePlic after).map (·.1))) =
      some (false, none, true, some none) := by
  decide +kernel

end RiscvWorkshop.Irq
