import Mathlib
import RiscvWorkshop.IrqReentry

namespace RiscvWorkshop.Irq

open SearchTree

/-!
# References to the lines, and the masks of those without one

The tree holds the lines with a reference; the others are masked.  A dispatch
takes three references to its line and returns them at its end; whichever of
them is the last one takes the line out of the tree and masks it.
-/

/-- What the operations of a controller do to the masks of the lines. -/
structure MaskLaws
    {Hw : Type}
    (masked : Hw → Nat → Prop)
    (ctrlr : IrqCtrlr Hw) : Prop where
  disables : ∀ hw irq, masked (ctrlr.disableIrq hw irq) irq
  disableIrq : ∀ hw irq other,
    masked hw other → masked (ctrlr.disableIrq hw irq) other
  enableIrq : ∀ hw irq other,
    other ≠ irq → masked hw other → masked (ctrlr.enableIrq hw irq) other
  configIrq : ∀ hw irq attr prio after other,
    ctrlr.configIrq hw irq attr prio = .ok after →
      other ≠ irq → masked hw other → masked after other
  irqIsPending : ∀ hw irq prio other,
    masked hw other → masked (ctrlr.irqIsPending hw irq prio).2 other
  setPriority : ∀ operations ∈ ctrlr.priMask, ∀ hw prio other,
    masked hw other → masked (operations.2 hw prio) other
  eoi : ∀ hw irq other,
    masked hw other → masked (ctrlr.eoi hw irq) other

/-- The tree holds the lines with a reference; the others are masked. -/
structure TreeSound
    {Hw : Type}
    (masked : Hw → Nat → Prop)
    (ctrlrQue : List (IrqCtrlr Hw))
    (info : IrqInfo Hw) : Prop where
  ctrlrQue : info.ctrlrQue = ctrlrQue
  nodup : info.prioQue.toList.Nodup
  listed : ∀ irq, irq ∈ info.prioQue.toList ↔ (info.irqs irq).refs ≠ 0
  small : ∀ irq, (info.irqs irq).refs ≠ 0 → irq < nrIrqs
  ctrlr : ∀ irq, (info.irqs irq).refs ≠ 0 →
    ∃ ctrlr, info.ctrlrOf irq = some ctrlr
  masked : ∀ irq, (info.irqs irq).refs = 0 → masked info.hw irq

/-- Another count of the references to one line, and nothing else of the lines. -/
structure Recounted
    {Hw : Type}
    (masked : Hw → Nat → Prop)
    (ctrlrQue : List (IrqCtrlr Hw))
    (info : IrqInfo Hw)
    (irq refs : Nat)
    (after : IrqInfo Hw) : Prop where
  tree : TreeSound masked ctrlrQue after
  irqs :
    after.irqs =
      Function.update info.irqs irq { info.irqs irq with refs }

section References

variable {Hw : Type}
variable (rebalancing : Rebalancing Nat)
variable {masked : Hw → Nat → Prop}
variable {ctrlrQue : List (IrqCtrlr Hw)}
variable {info after : IrqInfo Hw}
variable {irq : Nat}

/-- The hardware may change as long as the lines without a reference stay masked. -/
theorem TreeSound.withHw
    (sound : TreeSound masked ctrlrQue info)
    {hw : Hw}
    (keeps : ∀ line,
      (info.irqs line).refs = 0 → masked info.hw line → masked hw line) :
    TreeSound masked ctrlrQue { info with hw } :=
  ⟨sound.ctrlrQue, sound.nodup, sound.listed, sound.small, sound.ctrlr,
    fun line free => keeps line free (sound.masked line free)⟩

/-- A line that keeps a reference and its controller may change otherwise. -/
theorem TreeSound.setLine
    (sound : TreeSound masked ctrlrQue info)
    {line : IrqLine}
    (referred : (info.irqs irq).refs ≠ 0)
    (still : line.refs ≠ 0)
    (ctrlr : line.ctrlr = (info.irqs irq).ctrlr) :
    TreeSound masked ctrlrQue (info.setLine irq line) := by
  have refs : ∀ other,
      ((info.setLine irq line).irqs other).refs ≠ 0 ↔
        (info.irqs other).refs ≠ 0 := by
    intro other
    by_cases same : other = irq
    · subst same
      simp [IrqInfo.setLine, referred, still]
    · simp [IrqInfo.setLine, same]
  have ctrlrs : ∀ other,
      (info.setLine irq line).ctrlrOf other = info.ctrlrOf other := by
    intro other
    by_cases same : other = irq
    · subst same
      simp [IrqInfo.ctrlrOf, IrqInfo.setLine, ctrlr]
    · simp [IrqInfo.ctrlrOf, IrqInfo.setLine, same]
  refine ⟨sound.ctrlrQue, sound.nodup, fun other => ?_, fun other held => ?_,
    fun other held => ?_, fun other free => ?_⟩
  · rw [refs]
    exact sound.listed other
  · exact sound.small other ((refs other).mp held)
  · rw [ctrlrs]
    exact sound.ctrlr other ((refs other).mp held)
  · refine sound.masked other (of_not_not fun held => ?_)
    exact (refs other).mpr held free

theorem TreeSound.ctrlr_mem
    (sound : TreeSound masked ctrlrQue info)
    {ctrlr : IrqCtrlr Hw}
    (found : info.ctrlrOf irq = some ctrlr) :
    ctrlr ∈ ctrlrQue := by
  obtain ⟨place, -, atPlace⟩ := Option.bind_eq_some_iff.mp found
  rw [sound.ctrlrQue] at atPlace
  exact List.mem_of_getElem? atPlace

/-- Releasing a line masks it, and unmasks none. -/
theorem releasedHw_masked
    {ctrlr : IrqCtrlr Hw}
    (laws : MaskLaws masked ctrlr)
    (prio : Nat)
    {hw : Hw}
    {line : Nat}
    (before : line ≠ irq → masked hw line) :
    masked (releasedHw ctrlr prio irq hw) line := by
  rw [releasedHw]
  by_cases same : line = irq
  · subst same
    exact laws.disables _ line
  · apply laws.disableIrq
    cases operations : ctrlr.priMask with
    | none =>
        exact before same
    | some pair =>
        simp only
        split_ifs
        · exact laws.setPriority pair operations _ _ _ (before same)
        · exact before same

/-- A returned reference is counted down; with the last one the line leaves. -/
theorem irqlinePut_recounted
    (laws : ∀ ctrlr ∈ ctrlrQue, MaskLaws masked ctrlr)
    (sound : TreeSound masked ctrlrQue info)
    {count : Nat}
    (refs : (info.irqs irq).refs = count + 1) :
    ∃ isLast after,
      irqlinePut rebalancing info irq = some (isLast, after) ∧
        Recounted masked ctrlrQue info irq count after := by
  have referred : (info.irqs irq).refs ≠ 0 := by
    rw [refs]
    exact Nat.succ_ne_zero count
  obtain ⟨ctrlr, found⟩ := sound.ctrlr irq referred
  cases count with
  | succ count =>
      refine ⟨false, _, irqlinePut_shared rebalancing refs found, ?_, rfl⟩
      exact sound.setLine referred (Nat.succ_ne_zero count) rfl
  | zero =>
      have released :
          irqlinePut rebalancing info irq =
            some (true,
              { info.setLine irq { info.irqs irq with refs := 0 } with
                prioQue := removeLine rebalancing irq info.prioQue
                hw := releasedHw ctrlr (info.prioOf irq) irq info.hw }) := by
        simp only [irqlinePut, found, refs]
        cases operations : ctrlr.priMask <;>
          simp [releasedHw, operations, IrqInfo.setLine, IrqInfo.prioOf]
      have lines :
          (removeLine rebalancing irq info.prioQue).toList =
            info.prioQue.toList.erase irq := by
        rw [removeLine, rebalancing.afterRemove_toList, NodeTree.remove_toList]
      have stays : ∀ other,
          ((info.setLine irq { info.irqs irq with refs := 0 }).irqs
              other).refs ≠ 0 →
            other ≠ irq ∧ (info.irqs other).refs ≠ 0 := by
        intro other held
        by_cases same : other = irq
        · subst same
          simp [IrqInfo.setLine] at held
        · exact ⟨same, by simpa [IrqInfo.setLine, same] using held⟩
      refine ⟨true, _, released, ⟨sound.ctrlrQue, ?_, fun other => ?_,
        fun other held => ?_, fun other held => ?_, fun other free => ?_⟩, rfl⟩
      · rw [lines]
        exact sound.nodup.erase irq
      · rw [lines, sound.nodup.mem_erase_iff, sound.listed]
        refine ⟨?_, stays other⟩
        rintro ⟨different, held⟩
        simpa [IrqInfo.setLine, different] using held
      · exact sound.small other (stays other held).2
      · obtain ⟨different, heldBefore⟩ := stays other held
        obtain ⟨same, foundOther⟩ := sound.ctrlr other heldBefore
        refine ⟨same, ?_⟩
        rw [← foundOther]
        simp [IrqInfo.ctrlrOf, IrqInfo.setLine, different]
      · refine releasedHw_masked (laws ctrlr (sound.ctrlr_mem found)) _
          fun different => sound.masked other ?_
        simpa [IrqInfo.setLine, different] using free

/-- A counted line has the count given. -/
theorem Recounted.refs
    {count : Nat}
    (recounted : Recounted masked ctrlrQue info irq count after) :
    (after.irqs irq).refs = count := by
  simp [recounted.irqs]

/-- A line that is counted twice has the second count. -/
theorem Recounted.trans
    {last : IrqInfo Hw}
    {count other : Nat}
    (first : Recounted masked ctrlrQue info irq count after)
    (second : Recounted masked ctrlrQue after irq other last) :
    Recounted masked ctrlrQue info irq other last := by
  refine ⟨second.tree, ?_⟩
  rw [second.irqs, first.irqs]
  simp

/-- The hardware changes, and a line with a reference may be opened. -/
theorem Recounted.withHw
    {count : Nat}
    (recounted : Recounted masked ctrlrQue info irq (count + 1) after)
    {hw : Hw}
    (keeps : ∀ line, line ≠ irq → masked after.hw line → masked hw line) :
    Recounted masked ctrlrQue info irq (count + 1) { after with hw } := by
  refine ⟨recounted.tree.withHw fun line free => keeps line fun same => ?_,
    recounted.irqs⟩
  rw [same, recounted.refs] at free
  exact Nat.succ_ne_zero count free

/-- One more reference to a line that has one. -/
theorem irqlineGet_recounted
    (sound : TreeSound masked ctrlrQue info)
    {count : Nat}
    (refs : (info.irqs irq).refs = count + 1) :
    irqlineGet info irq = (true, info.hold irq) ∧
      Recounted masked ctrlrQue info irq (count + 2) (info.hold irq) := by
  have referred : (info.irqs irq).refs ≠ 0 := by
    rw [refs]
    exact Nat.succ_ne_zero count
  refine ⟨irqlineGet_hold referred,
    sound.setLine referred (Nat.succ_ne_zero _) rfl, ?_⟩
  rw [IrqInfo.hold, refs]
  rfl

/-! ## A dispatch and its end -/

theorem TreeSound.ctrlr_at
    (sound : TreeSound masked ctrlrQue info)
    {ctrlr : IrqCtrlr Hw}
    {place : Nat}
    (atPlace : info.ctrlrQue[place]? = some ctrlr) :
    ctrlr ∈ ctrlrQue := by
  rw [sound.ctrlrQue] at atPlace
  exact List.mem_of_getElem? atPlace

/-- To restore the priority mask unmasks no line. -/
theorem restoredHw_masked
    {ctrlr : IrqCtrlr Hw}
    (laws : MaskLaws masked ctrlr)
    (mask : Option Nat)
    {hw : Hw}
    {line : Nat}
    (before : masked hw line) :
    masked (restoredHw ctrlr mask hw) line := by
  unfold restoredHw
  cases operations : ctrlr.priMask with
  | none =>
      exact before
  | some pair =>
      cases mask with
      | none =>
          exact before
      | some prio =>
          exact laws.setPriority pair operations hw prio line before

/-- The end of `handle_irq_line` and of the call returns two references. -/
theorem closeLine_recounted
    (laws : ∀ ctrlr ∈ ctrlrQue, MaskLaws masked ctrlr)
    (sound : TreeSound masked ctrlrQue info)
    {frame : Frame}
    {count : Nat}
    (refs : (info.irqs frame.irq).refs = count + 2)
    (place : frame.ctrlr < ctrlrQue.length) :
    ∃ after,
      closeLine rebalancing info frame = some after ∧
        Recounted masked ctrlrQue info frame.irq count after := by
  have atPlace : info.ctrlrQue[frame.ctrlr]? = some ctrlrQue[frame.ctrlr] := by
    rw [sound.ctrlrQue]
    exact List.getElem?_eq_getElem place
  have ctrlrLaws := laws _ (sound.ctrlr_at atPlace)
  obtain ⟨isLast, handled, put, first⟩ :=
    irqlinePut_recounted rebalancing laws sound refs
  simp only [closeLine, put, atPlace]
  have opened :=
    first.withHw fun line different masking =>
      restoredHw_masked ctrlrLaws frame.mask
        (ctrlrLaws.enableIrq handled.hw frame.irq line different masking)
  obtain ⟨isLastNow, after, putNow, second⟩ :=
    irqlinePut_recounted rebalancing laws opened.tree opened.refs
  exact ⟨after, by rw [putNow, Option.map_some], opened.trans second⟩

/-- A dispatch that ends returns its three references. -/
theorem leaveLine_recounted
    (laws : ∀ ctrlr ∈ ctrlrQue, MaskLaws masked ctrlr)
    (sound : TreeSound masked ctrlrQue info)
    {frame : Frame}
    {count : Nat}
    (refs : (info.irqs frame.irq).refs = count + 3)
    (place : frame.ctrlr < ctrlrQue.length) :
    ∃ after,
      leaveLine rebalancing info frame = some after ∧
        Recounted masked ctrlrQue info frame.irq count after := by
  obtain ⟨isLast, invoked, put, first⟩ :=
    irqlinePut_recounted rebalancing laws sound refs
  obtain ⟨after, closed, second⟩ :=
    closeLine_recounted rebalancing laws first.tree first.refs place
  exact ⟨after, by rw [leaveLine, put]; exact closed, first.trans second⟩

/-- What is left of a dispatch: it waits for a handler, or its references are back. -/
inductive Dispatched
    (masked : Hw → Nat → Prop)
    (ctrlrQue : List (IrqCtrlr Hw))
    (info : IrqInfo Hw)
    (irq count : Nat) :
    Option Frame × IrqInfo Hw → Prop where
  | waiting
      {frame : Frame}
      {after : IrqInfo Hw}
      (sameLine : frame.irq = irq)
      (place : frame.ctrlr < ctrlrQue.length)
      (recounted : Recounted masked ctrlrQue info irq (count + 3) after) :
      Dispatched masked ctrlrQue info irq count (some frame, after)
  | ended
      {after : IrqInfo Hw}
      (recounted : Recounted masked ctrlrQue info irq count after) :
      Dispatched masked ctrlrQue info irq count (none, after)

/-- A handler is called, or there is none and the dispatch ends. -/
theorem callHandler_dispatched
    (laws : ∀ ctrlr ∈ ctrlrQue, MaskLaws masked ctrlr)
    {frame : Frame}
    {count : Nat}
    (recounted : Recounted masked ctrlrQue info frame.irq (count + 3) after)
    (place : frame.ctrlr < ctrlrQue.length)
    (handler : Nat) :
    ∃ left,
      callHandler rebalancing after frame handler = some left ∧
        Dispatched masked ctrlrQue info frame.irq count left := by
  rw [callHandler]
  by_cases next : handler < (after.irqs frame.irq).handlers.length
  · rw [if_pos next]
    exact ⟨_, rfl, .waiting rfl place recounted⟩
  · rw [if_neg next]
    obtain ⟨last, closed, returned⟩ :=
      leaveLine_recounted rebalancing laws recounted.tree recounted.refs place
    exact ⟨_, by rw [closed, Option.map_some],
      .ended (recounted.trans returned)⟩

/-- What a dispatch does to the hardware before the handlers unmasks no line. -/
theorem completedHw_masked
    {ctrlr : IrqCtrlr Hw}
    (laws : MaskLaws masked ctrlr)
    (prio : Nat)
    {hw : Hw}
    {line : Nat}
    (before : masked hw line) :
    masked (completedHw ctrlr prio irq hw) line := by
  apply laws.eoi
  apply laws.disableIrq
  cases operations : ctrlr.priMask with
  | none =>
      exact before
  | some pair =>
      exact laws.setPriority pair operations hw prio line before

/-- A pending line is dispatched with the reference that the scan took. -/
theorem dispatchLine_dispatched
    (laws : ∀ ctrlr ∈ ctrlrQue, MaskLaws masked ctrlr)
    {count : Nat}
    (recounted : Recounted masked ctrlrQue info irq (count + 1) after) :
    ∃ left,
      dispatchLine rebalancing after irq = some left ∧
        Dispatched masked ctrlrQue info irq count left := by
  have referred : (after.irqs irq).refs ≠ 0 := by
    rw [recounted.refs]
    exact Nat.succ_ne_zero count
  obtain ⟨ctrlr, found⟩ := recounted.tree.ctrlr irq referred
  obtain ⟨place, line, atPlace⟩ := Option.bind_eq_some_iff.mp found
  have inQue : place < ctrlrQue.length := by
    rw [← recounted.tree.ctrlrQue]
    exact (List.getElem?_eq_some_iff.mp atPlace).1
  have ctrlrLaws := laws ctrlr (recounted.tree.ctrlr_mem found)
  obtain ⟨get, held⟩ := irqlineGet_recounted recounted.tree recounted.refs
  have foundHeld : (after.hold irq).ctrlrOf irq = some ctrlr :=
    (after.hold_ctrlrOf after.hw irq irq).trans found
  have lineHeld : ((after.hold irq).irqs irq).ctrlr = some place := by
    simp [IrqInfo.hold, IrqInfo.setLine, line]
  have completed :
      Recounted masked ctrlrQue after irq (count + 2)
        { after.hold irq with
          hw :=
            completedHw ctrlr ((after.hold irq).prioOf irq) irq
              (after.hold irq).hw } :=
    held.withHw fun other _ masking =>
      completedHw_masked ctrlrLaws _ masking
  obtain ⟨getAgain, heldAgain⟩ :=
    irqlineGet_recounted completed.tree completed.refs
  have counted := (recounted.trans completed).trans heldAgain
  rw [dispatchLine, if_pos (recounted.tree.small irq referred), get]
  simp only [lineHeld, foundHeld, getAgain]
  exact callHandler_dispatched rebalancing laws counted inQue 0

/-- A handler that was not taken off, or that handled the interrupt, returns. -/
theorem handlerReturns_dispatched
    (laws : ∀ ctrlr ∈ ctrlrQue, MaskLaws masked ctrlr)
    (sound : TreeSound masked ctrlrQue info)
    {frame : Frame}
    {count : Nat}
    (refs : (info.irqs frame.irq).refs = count + 3)
    (place : frame.ctrlr < ctrlrQue.length)
    {handled : Bool}
    (met : handled = true ∨ frame.place ≠ none) :
    ∃ left,
      handlerReturns rebalancing info frame handled = some left ∧
        Dispatched masked ctrlrQue info frame.irq count left := by
  have now : Recounted masked ctrlrQue info frame.irq (count + 3) info := by
    refine ⟨sound, ?_⟩
    rw [← refs]
    exact (Function.update_eq_self frame.irq info.irqs).symm
  cases handled with
  | true =>
      obtain ⟨last, closed, returned⟩ :=
        leaveLine_recounted rebalancing laws sound refs place
      rw [handlerReturns, if_pos rfl, closed]
      exact ⟨_, rfl, .ended returned⟩
  | false =>
      obtain ⟨current, running⟩ :=
        Option.ne_none_iff_exists'.mp (met.resolve_left Bool.false_ne_true)
      rw [handlerReturns, if_neg Bool.false_ne_true, running]
      exact callHandler_dispatched rebalancing laws now place (current + 1)

/-! ## The scan -/

/-- The scan polls until a line is found, and keeps the reference to this one. -/
theorem findPending_poll
    (lines : List Nat)
    (info : IrqInfo Hw)
    (served : ∀ irq ∈ lines, Served info irq) :
    findPending rebalancing lines info =
      match pollLines info lines info.hw with
      | (none, hw) => some (none, { info with hw })
      | (some irq, hw) => some (some irq, { info.hold irq with hw }) := by
  induction lines generalizing info with
  | nil =>
      rfl
  | cons irq rest inductionHypothesis =>
      obtain ⟨small, referred, ctrlr, found⟩ := served irq (by simp)
      have foundHeld : (info.hold irq).ctrlrOf irq = some ctrlr :=
        (info.hold_ctrlrOf info.hw irq irq).trans found
      have prio : (info.hold irq).prioOf irq = info.prioOf irq :=
        info.hold_prioOf info.hw irq irq
      rw [findPending, irqlineGet_hold referred, pollLines]
      simp only [found, foundHeld, prio, IrqInfo.hold_hw]
      cases ctrlr.irqIsPending info.hw irq (info.prioOf irq) with
      | mk isFound hw =>
          cases isFound with
          | true =>
              rfl
          | false =>
              simp only [irqlinePut_hold rebalancing referred found]
              rw [inductionHypothesis { info with hw } fun line member =>
                (served line (List.mem_cons_of_mem irq member)).withHw hw,
                pollLines_withHw]
              rfl

/-- The polls unmask no line. -/
theorem pollLines_masked
    (laws : ∀ ctrlr ∈ ctrlrQue, MaskLaws masked ctrlr)
    (sound : TreeSound masked ctrlrQue info)
    (lines : List Nat)
    {hw : Hw}
    {line : Nat}
    (before : masked hw line) :
    masked (pollLines info lines hw).2 line := by
  induction lines generalizing hw with
  | nil =>
      exact before
  | cons irq rest inductionHypothesis =>
      rw [pollLines]
      cases found : info.ctrlrOf irq with
      | none =>
          exact before
      | some ctrlr =>
          have polled :=
            (laws ctrlr (sound.ctrlr_mem found)).irqIsPending hw irq
              (info.prioOf irq) line before
          simp only
          cases asked : ctrlr.irqIsPending hw irq (info.prioOf irq) with
          | mk isFound after =>
              rw [asked] at polled
              cases isFound with
              | true => exact polled
              | false => exact inductionHypothesis polled

theorem TreeSound.served
    (sound : TreeSound masked ctrlrQue info) :
    ∀ irq ∈ info.prioQue.toList.reverse, Served info irq := by
  intro irq member
  have referred := (sound.listed irq).mp (List.mem_reverse.mp member)
  exact ⟨sound.small irq referred, referred, sound.ctrlr irq referred⟩

/-- The scan finds nothing, or a line of the tree, which it refers to. -/
theorem findPending_found
    (laws : ∀ ctrlr ∈ ctrlrQue, MaskLaws masked ctrlr)
    (sound : TreeSound masked ctrlrQue info) :
    ∃ hw,
      (∀ line, masked info.hw line → masked hw line) ∧
        (findPending rebalancing info.prioQue.toList.reverse info =
            some (none, { info with hw }) ∨
          ∃ irq,
            (info.irqs irq).refs ≠ 0 ∧
              findPending rebalancing info.prioQue.toList.reverse info =
                some (some irq, { info.hold irq with hw })) := by
  have keeps : ∀ line,
      masked info.hw line →
        masked
          (pollLines info info.prioQue.toList.reverse info.hw).2 line :=
    fun _ => pollLines_masked laws sound _
  rw [findPending_poll rebalancing _ info sound.served]
  cases polled : pollLines info info.prioQue.toList.reverse info.hw with
  | mk line hw =>
      rw [polled] at keeps
      refine ⟨hw, keeps, ?_⟩
      cases line with
      | none =>
          exact .inl rfl
      | some irq =>
          refine .inr ⟨irq, ?_, rfl⟩
          exact (sound.listed irq).mp
            (List.mem_reverse.mp (pollLines_mem polled))

/-! ## Handlers that leave their line -/

/-- What `irq_unregister_handler` does: refuse, or take an entry off. -/
inductive Unregistering
    (masked : Hw → Nat → Prop)
    (ctrlrQue : List (IrqCtrlr Hw))
    (info : IrqInfo Hw)
    (irq handler : Nat) :
    Except Errno Unit → IrqInfo Hw → Prop where
  | refused
      {code : Errno} :
      Unregistering masked ctrlrQue info irq handler (.error code) info
  | takenOff
      {ent : IrqHandlerEnt}
      {after : IrqInfo Hw}
      (found :
        (info.irqs irq).handlers.find? (·.handler = handler) = some ent)
      (tree : TreeSound masked ctrlrQue after)
      (irqs :
        after.irqs =
          Function.update info.irqs irq
            { info.irqs irq with
              handlers := (info.irqs irq).handlers.erase ent
              refs :=
                if (info.irqs irq).handlers.erase ent = [] then
                  (info.irqs irq).refs - 1
                else
                  (info.irqs irq).refs }) :
      Unregistering masked ctrlrQue info irq handler (.ok ()) after

/-- A line with handlers has a reference for them, which goes with the last one. -/
theorem irqUnregisterHandler_unregistering
    (laws : ∀ ctrlr ∈ ctrlrQue, MaskLaws masked ctrlr)
    (sound : TreeSound masked ctrlrQue info)
    (referred : info.Registered irq → (info.irqs irq).refs ≠ 0)
    {handler : Nat}
    {result : Except Errno Unit}
    (called :
      irqUnregisterHandler rebalancing info irq handler =
        some (result, after)) :
    Unregistering masked ctrlrQue info irq handler result after := by
  rw [irqUnregisterHandler] at called
  by_cases big : irq ≥ nrIrqs
  · rw [if_pos big] at called
    cases called
    exact .refused
  rw [if_neg big] at called
  by_cases uncontrolled : (info.irqs irq).ctrlr = none
  · simp only [uncontrolled, if_true] at called
    cases called
  simp only [uncontrolled, if_false] at called
  cases found : (info.irqs irq).handlers.find? (·.handler = handler) with
  | none =>
      simp only [found] at called
      cases called
      exact .refused
  | some ent =>
      have held : (info.irqs irq).refs ≠ 0 :=
        referred (List.ne_nil_of_mem (List.mem_of_find?_eq_some found))
      simp only [found] at called
      have shorter :
          TreeSound masked ctrlrQue
            (info.setLine irq
              { info.irqs irq with
                handlers := (info.irqs irq).handlers.erase ent }) :=
        sound.setLine held held rfl
      by_cases isLast : (info.irqs irq).handlers.erase ent = []
      · rw [if_pos (by simpa [IrqInfo.setLine] using isLast)] at called
        obtain ⟨count, refs⟩ := Nat.exists_eq_succ_of_ne_zero held
        have stillHeld :
            ((info.setLine irq
              { info.irqs irq with
                handlers := (info.irqs irq).handlers.erase ent }).irqs
                  irq).refs = count + 1 := by
          simpa [IrqInfo.setLine] using refs
        obtain ⟨last, put, returned, recounted⟩ :=
          irqlinePut_recounted rebalancing laws shorter stillHeld
        rw [returned, Option.map_some] at called
        cases called
        refine .takenOff found recounted.tree ?_
        rw [recounted.irqs, if_pos isLast, refs]
        simp [IrqInfo.setLine]
      · rw [if_neg (by simpa [IrqInfo.setLine] using isLast)] at called
        cases called
        refine .takenOff found shorter ?_
        rw [if_neg isLast]
        rfl

end References

/-! ## Handlers that only act on the hardware -/

section Atomic

variable {Hw : Type}
variable (rebalancing : Rebalancing Nat)
variable (serve : Serve Hw)
variable {system : IrqSystem Hw}
variable {irq : Nat}
variable {ctrlr : IrqCtrlr Hw}

/-- Steps between which the hardware may change in any way. -/
abbrev AnyAction (Hw : Type) :=
  IrqAction fun (_ : Hw) (_ : Nat) => False

/-- The hardware is set. -/
def setHw (hw : Hw) : AnyAction Hw :=
  .device ⟨fun _ => hw, fun _ _ => False.elim⟩

/-- The system while the handler at a place runs. -/
def IrqSystem.running
    (system : IrqSystem Hw)
    (frame : Frame)
    (place : Nat)
    (hw : Hw) : IrqSystem Hw :=
  { system with
    info :=
      { ((system.info.hold frame.irq).hold frame.irq).hold frame.irq with hw }
    frames := { frame with place := some place } :: system.frames }

/-- The system once the dispatch is over. -/
def IrqSystem.dispatched
    (system : IrqSystem Hw)
    (ctrlr : IrqCtrlr Hw)
    (frame : Frame)
    (hw : Hw) : IrqSystem Hw :=
  { system with
    info :=
      { system.info with
        hw := restoredHw ctrlr frame.mask (ctrlr.enableIrq hw frame.irq) } }

/-- A dispatch that has a line and its controller. -/
structure Frame.Of
    (frame : Frame)
    (info : IrqInfo Hw)
    (ctrlr : IrqCtrlr Hw) : Prop where
  referred : (info.irqs frame.irq).refs ≠ 0
  line : info.ctrlrOf frame.irq = some ctrlr
  atPlace : info.ctrlrQue[frame.ctrlr]? = some ctrlr

/-- The dispatch returns the three references, and the lines are as before. -/
theorem Frame.Of.leaveLine
    {frame : Frame}
    (isOf : frame.Of system.info ctrlr)
    (place : Nat)
    (current : Option Nat)
    (hw : Hw) :
    leaveLine rebalancing (system.running frame place hw).info
        { frame with place := current } =
      some (system.dispatched ctrlr frame hw).info := by
  have held : ∀ info : IrqInfo Hw,
      ((info.hold frame.irq).irqs frame.irq).refs ≠ 0 := by
    simp [IrqInfo.hold, IrqInfo.setLine]
  have lineHeld :
      (system.info.hold frame.irq).ctrlrOf frame.irq = some ctrlr :=
    (system.info.hold_ctrlrOf system.info.hw _ _).trans isOf.line
  have lineHeldTwice :
      ((system.info.hold frame.irq).hold frame.irq).ctrlrOf frame.irq =
        some ctrlr :=
    ((system.info.hold frame.irq).hold_ctrlrOf system.info.hw _ _).trans
      lineHeld
  have first :=
    irqlinePut_hold rebalancing (held (system.info.hold frame.irq))
      lineHeldTwice hw
  have second := irqlinePut_hold rebalancing (held system.info) lineHeld hw
  have atPlaceHeld :
      ({ (system.info.hold frame.irq).hold frame.irq with
        hw } : IrqInfo Hw).ctrlrQue[frame.ctrlr]? = some ctrlr :=
    isOf.atPlace
  rw [IrqSystem.running, Irq.leaveLine, first]
  simp only [closeLine, second, atPlaceHeld]
  rw [irqlinePut_hold rebalancing isOf.referred isOf.line, Option.map_some]
  rfl

/-- The return of the handler that runs. -/
theorem IrqSystem.running_returns
    (frame : Frame)
    (place : Nat)
    (hw : Hw)
    (handled : Bool) :
    irqSystemNext rebalancing (system.running frame place hw)
        (.handlerReturns 0 handled : AnyAction Hw) =
      (handlerReturns rebalancing (system.running frame place hw).info
        { frame with place := some place } handled).map
          (system.withFrame system.frames) := by
  simp only [irqSystemNext, irqStep, IrqSystem.running,
    List.getElem?_cons_zero, List.eraseIdx_cons_zero, Option.map_map]
  rfl

/-- A handler that handled the interrupt ends the dispatch. -/
theorem Frame.Of.handled
    {frame : Frame}
    (isOf : frame.Of system.info ctrlr)
    (place : Nat)
    (hw : Hw) :
    irqSystemNext rebalancing (system.running frame place hw)
        (.handlerReturns 0 true : AnyAction Hw) =
      some (system.dispatched ctrlr frame hw) := by
  rw [IrqSystem.running_returns, handlerReturns, if_pos rfl,
    isOf.leaveLine rebalancing place (some place) hw]
  rfl

/-- The next handler is called, or the dispatch ends after the last one. -/
theorem Frame.Of.unhandled
    {frame : Frame}
    (isOf : frame.Of system.info ctrlr)
    (place : Nat)
    (hw : Hw) :
    irqSystemNext rebalancing (system.running frame place hw)
        (.handlerReturns 0 false : AnyAction Hw) =
      some
        (if place + 1 < (system.info.irqs frame.irq).handlers.length then
          system.running frame (place + 1) hw
        else
          system.dispatched ctrlr frame hw) := by
  have handlers :
      ((system.running frame place hw).info.irqs frame.irq).handlers =
        (system.info.irqs frame.irq).handlers := by
    simp [IrqSystem.running, IrqInfo.hold, IrqInfo.setLine]
  rw [IrqSystem.running_returns, handlerReturns, if_neg Bool.false_ne_true]
  simp only [callHandler, handlers]
  by_cases next : place + 1 < (system.info.irqs frame.irq).handlers.length
  · rw [if_pos next, if_pos next]
    rfl
  · rw [if_neg next, if_neg next,
      isOf.leaveLine rebalancing place (some place) hw]
    rfl

/-- A handler changes the hardware, and returns. -/
theorem run_handler
    (frame : Frame)
    (place : Nat)
    (hw hwServed : Hw)
    (handled : Bool)
    {after : IrqSystem Hw}
    (returned :
      irqSystemNext rebalancing (system.running frame place hwServed)
          (.handlerReturns 0 handled : AnyAction Hw) =
        some after) :
    Run (StepOf (irqSystemNext rebalancing)) (system.running frame place hw)
      [setHw hwServed, .handlerReturns 0 handled] after := by
  have served :
      StepOf (irqSystemNext rebalancing) (system.running frame place hw)
        (setHw hwServed) (system.running frame place hwServed) :=
    rfl
  exact .cons served (.cons returned .nil)

/-- The handlers from one on run, each as a change of the hardware and a return. -/
theorem Frame.Of.run
    {frame : Frame}
    (isOf : frame.Of system.info ctrlr)
    (ent : IrqHandlerEnt)
    (rest before : List IrqHandlerEnt)
    (handlers :
      (system.info.irqs frame.irq).handlers = before ++ ent :: rest)
    (hw : Hw) :
    ∃ actions : List (AnyAction Hw),
      Run (StepOf (irqSystemNext rebalancing))
        (system.running frame before.length hw) actions
        (system.dispatched ctrlr frame
          (invokeHandlers serve frame.irq (ent :: rest) hw).2.2) := by
  -- by induction on the handlers that follow
  induction rest generalizing ent before hw with
  | nil =>
      have isLast :
          ¬ before.length + 1 < (system.info.irqs frame.irq).handlers.length := by
        simp [handlers]
      rw [invokeHandlers]
      rcases serve frame.irq ent hw with ⟨handled, hwServed⟩
      have returned :
          irqSystemNext rebalancing
              (system.running frame before.length hwServed)
              (.handlerReturns 0 handled : AnyAction Hw) =
            some (system.dispatched ctrlr frame hwServed) := by
        cases handled with
        | true => exact isOf.handled rebalancing before.length hwServed
        | false => rw [isOf.unhandled rebalancing, if_neg isLast]
      have run :=
        run_handler rebalancing frame before.length hw hwServed handled returned
      cases handled <;> exact ⟨_, run⟩
  | cons next rest inductionHypothesis =>
      have isNext :
          before.length + 1 < (system.info.irqs frame.irq).handlers.length := by
        simp [handlers]
      rw [invokeHandlers]
      rcases serve frame.irq ent hw with ⟨handled, hwServed⟩
      cases handled with
      | true =>
          have returned := isOf.handled rebalancing before.length hwServed
          exact ⟨_, run_handler rebalancing frame before.length hw hwServed true
            returned⟩
      | false =>
          have returned := isOf.unhandled rebalancing before.length hwServed
          rw [if_pos isNext] at returned
          obtain ⟨actions, later⟩ :=
            inductionHypothesis next (before ++ [ent]) (by simp [handlers])
              hwServed
          rw [List.length_append, List.length_singleton] at later
          have first :=
            run_handler rebalancing frame before.length hw hwServed false
              returned
          exact ⟨_, first.append later⟩

/-- The frame of the dispatch of a line. -/
def dispatchFrame
    (ctrlr : IrqCtrlr Hw)
    (irq place : Nat)
    (hw : Hw) : Frame :=
  { irq
    ctrlr := place
    mask := ctrlr.priMask.map fun (getPriority, _) => getPriority hw
    place := none }

/-- What the frame restores is what the line is opened with. -/
theorem restoredHw_dispatchFrame
    (ctrlr : IrqCtrlr Hw)
    (irq place : Nat)
    (before hw : Hw) :
    restoredHw ctrlr (dispatchFrame ctrlr irq place before).mask
        (ctrlr.enableIrq hw irq) =
      reopenedHw ctrlr irq before hw := by
  unfold restoredHw reopenedHw dispatchFrame
  cases ctrlr.priMask <;> rfl

/-- The line that the scan found is dispatched up to its first handler. -/
theorem Frame.Of.firstHandler
    {place : Nat}
    {hw : Hw}
    (isOf : (dispatchFrame ctrlr irq place hw).Of system.info ctrlr)
    (small : irq < nrIrqs)
    (line : (system.info.irqs irq).ctrlr = some place) :
    (dispatchLine rebalancing { system.info.hold irq with hw } irq).map
        (system.withFrame system.frames) =
      some
        (if 0 < (system.info.irqs irq).handlers.length then
          system.running (dispatchFrame ctrlr irq place hw) 0
            (completedHw ctrlr (system.info.prioOf irq) irq hw)
        else
          system.dispatched ctrlr (dispatchFrame ctrlr irq place hw)
            (completedHw ctrlr (system.info.prioOf irq) irq hw)) := by
  have get : ∀ (info : IrqInfo Hw) (hw : Hw),
      irqlineGet { info.hold irq with hw } irq =
        (true, { (info.hold irq).hold irq with hw }) := by
    intro info hw
    exact irqlineGet_hold (by simp [IrqInfo.hold, IrqInfo.setLine])
  have lineHeld :
      (((system.info.hold irq).hold irq).irqs irq).ctrlr = some place := by
    simp [IrqInfo.hold, IrqInfo.setLine, line]
  have found :
      ({ (system.info.hold irq).hold irq with hw } : IrqInfo Hw).ctrlrOf irq =
        some ctrlr := by
    rw [IrqInfo.hold_ctrlrOf]
    exact (system.info.hold_ctrlrOf system.info.hw irq irq).trans isOf.line
  have prio :
      ({ (system.info.hold irq).hold irq with hw } : IrqInfo Hw).prioOf irq =
        system.info.prioOf irq := by
    rw [IrqInfo.hold_prioOf]
    exact system.info.hold_prioOf system.info.hw irq irq
  have handlers :
      ((system.running (dispatchFrame ctrlr irq place hw) 0
        (completedHw ctrlr (system.info.prioOf irq) irq hw)).info.irqs
          (dispatchFrame ctrlr irq place hw).irq).handlers.length =
        (system.info.irqs irq).handlers.length := by
    simp [IrqSystem.running, dispatchFrame, IrqInfo.hold, IrqInfo.setLine]
  have called :
      dispatchLine rebalancing { system.info.hold irq with hw } irq =
        callHandler rebalancing
          (system.running (dispatchFrame ctrlr irq place hw) 0
            (completedHw ctrlr (system.info.prioOf irq) irq hw)).info
          (dispatchFrame ctrlr irq place hw) 0 := by
    rw [dispatchLine, if_pos small, get]
    simp only [lineHeld, found, prio, get]
    rfl
  rw [called, callHandler]
  by_cases first : 0 < (system.info.irqs irq).handlers.length
  · rw [if_pos first, if_pos (by rw [handlers]; exact first)]
    rfl
  · rw [if_neg first, if_neg (by rw [handlers]; exact first)]
    have left :=
      isOf.leaveLine rebalancing 0 none
        (completedHw ctrlr (system.info.prioOf irq) irq hw)
    rw [dispatchFrame] at left ⊢
    rw [left]
    rfl

/--
An interrupt whose handlers only act on the hardware is a run: the dispatch,
and each handler's change of the hardware with its return.
-/
theorem irqHandleIrq_run
    {dispatch : Option Dispatch}
    {info : IrqInfo Hw}
    (served : ∀ irq ∈ system.info.prioQue.toList.reverse,
      Served system.info irq)
    (called :
      irqHandleIrq rebalancing serve system.info = some (dispatch, info)) :
    ∃ actions : List (AnyAction Hw),
      Run (StepOf (irqSystemNext rebalancing)) system actions
        { system with info } := by
  rw [irqHandleIrq, scanLines_poll rebalancing serve _ _ served] at called
  have scanned := findPending_poll rebalancing _ system.info served
  cases polled :
      pollLines system.info system.info.prioQue.toList.reverse
        system.info.hw with
  | mk line hw =>
      rw [polled] at called scanned
      cases line with
      | none =>
          cases called
          refine ⟨[.interrupt], .snoc .nil ?_⟩
          simp only [StepOf, irqSystemNext, irqStep, scanned, Option.map_some]
      | some irq =>
          obtain ⟨small, referred, ctrlr, found⟩ :=
            served irq (pollLines_mem polled)
          obtain ⟨place, line, atPlace⟩ := Option.bind_eq_some_iff.mp found
          simp only at called scanned
          rw [handleIrqLine_eq rebalancing serve small referred found] at called
          cases called
          have isOf : (dispatchFrame ctrlr irq place hw).Of system.info ctrlr :=
            ⟨referred, found, atPlace⟩
          have first := isOf.firstHandler rebalancing small line
          have dispatched : ∀ hwLast,
              system.dispatched ctrlr (dispatchFrame ctrlr irq place hw)
                  hwLast =
                { system with
                  info :=
                    { system.info with
                      hw := reopenedHw ctrlr irq hw hwLast } } :=
            fun hwLast => by
              rw [← restoredHw_dispatchFrame ctrlr irq place hw hwLast]
              rfl
          have interrupted : ∀ {next : IrqSystem Hw},
              (dispatchLine rebalancing { system.info.hold irq with hw }
                  irq).map (system.withFrame system.frames) = some next →
                StepOf (irqSystemNext rebalancing) system
                  (.interrupt : AnyAction Hw) next := by
            intro next called
            simp only [StepOf, irqSystemNext, irqStep, scanned, Option.map_map]
            exact called
          rw [← dispatched]
          cases handlers : (system.info.irqs irq).handlers with
          | nil =>
              rw [handlers] at first
              exact ⟨_, .cons (interrupted first) .nil⟩
          | cons ent rest =>
              rw [handlers] at first
              obtain ⟨actions, later⟩ :=
                isOf.run rebalancing serve ent rest [] handlers
                  (completedHw ctrlr (system.info.prioOf irq) irq hw)
              exact ⟨_, .cons (interrupted first) later⟩

end Atomic

end RiscvWorkshop.Irq
