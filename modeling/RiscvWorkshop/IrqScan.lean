import Mathlib
import RiscvWorkshop.IrqLine

namespace RiscvWorkshop.Irq

open SearchTree

/-!
# Lines that come and go, and the scan over them

The tree of lines holds the lines with a handler, each with one reference; a
call brings at most one line in or out.  The references that a scan takes are
returned before it ends, so that a scan changes only the hardware.
-/

/-- The calls of a run; the hardware may change in any way between them. -/
inductive IrqCall (Hw : Type) where
  | register (irq attr prio handler privateInfo : Nat)
  | unregister (irq handler : Nat)
  | handle
  | device (hw : Hw)

section Runs

variable {Hw : Type}
variable (rebalancing : Rebalancing Nat)
variable (serve : Serve Hw)

/-- One call, under the lock of the interrupt management. -/
def irqNext (info : IrqInfo Hw) : IrqCall Hw → Option (IrqInfo Hw)
  | .register irq attr prio handler privateInfo =>
      (irqRegisterHandler rebalancing info irq attr prio handler
        privateInfo).map (·.2)
  | .unregister irq handler =>
      (irqUnregisterHandler rebalancing info irq handler).map (·.2)
  | .handle => (irqHandleIrq rebalancing serve info).map (·.2)
  | .device hw => some { info with hw }

end Runs

namespace IrqInfo

variable {Hw : Type}

/-- A line with a handler. -/
def Registered (info : IrqInfo Hw) (irq : Nat) : Prop :=
  (info.irqs irq).handlers ≠ []

instance (info : IrqInfo Hw) (irq : Nat) : Decidable (info.Registered irq) :=
  inferInstanceAs (Decidable (_ ≠ _))

/-- The controller that serves a number. -/
def ctrlrFor
    (info : IrqInfo Hw)
    (irq : Nat) : Option (IrqCtrlr Hw) :=
  (findCtrlr irq info.ctrlrQue 0).join.bind fun place =>
    info.ctrlrQue[place]?

/-- The place that the former priority of a line leads to. -/
def placeOf
    (info : IrqInfo Hw)
    (irq : Nat) : Option (List Nat × List Nat) :=
  info.prioQue.place fun ent =>
    irqLineCmp (info.prioOf irq) (info.prioOf ent)

end IrqInfo

/-! ## The invariant -/

/-- The tree holds the registered lines, each with one reference. -/
structure InfoSound
    {Hw : Type}
    (info : IrqInfo Hw) : Prop where
  nodup : info.prioQue.toList.Nodup
  listed : ∀ irq, irq ∈ info.prioQue.toList ↔ info.Registered irq
  small : ∀ irq, info.Registered irq → irq < nrIrqs
  refs : ∀ irq, info.Registered irq → (info.irqs irq).refs = 1
  ctrlr : ∀ irq, info.Registered irq → ∃ ctrlr, info.ctrlrOf irq = some ctrlr

/-! ## References that are taken and returned -/

namespace IrqInfo

variable {Hw : Type}

/-- One more reference to a line. -/
def hold
    (info : IrqInfo Hw)
    (irq : Nat) : IrqInfo Hw :=
  info.setLine irq
    { info.irqs irq with refs := (info.irqs irq).refs + 1 }

@[simp] theorem hold_ctrlrOf
    (info : IrqInfo Hw)
    (hw : Hw)
    (irq other : Nat) :
    ({ info.hold irq with hw } : IrqInfo Hw).ctrlrOf other =
      info.ctrlrOf other := by
  by_cases same : other = irq <;>
    simp [ctrlrOf, hold, setLine, same]

@[simp] theorem hold_prioOf
    (info : IrqInfo Hw)
    (hw : Hw)
    (irq other : Nat) :
    ({ info.hold irq with hw } : IrqInfo Hw).prioOf other =
      info.prioOf other := by
  by_cases same : other = irq <;>
    simp [prioOf, hold, setLine, same]

@[simp] theorem hold_handlers
    (info : IrqInfo Hw)
    (hw : Hw)
    (irq other : Nat) :
    (({ info.hold irq with hw } : IrqInfo Hw).irqs other).handlers =
      (info.irqs other).handlers := by
  by_cases same : other = irq <;>
    simp [hold, setLine, same]

@[simp] theorem hold_hw
    (info : IrqInfo Hw)
    (irq : Nat) :
    (info.hold irq).hw = info.hw :=
  rfl

end IrqInfo

section References

variable {Hw : Type}
variable (rebalancing : Rebalancing Nat)
variable (serve : Serve Hw)
variable {info : IrqInfo Hw}
variable {irq : Nat}
variable {ctrlr : IrqCtrlr Hw}

/-- A line with a reference can be referred to once more. -/
theorem irqlineGet_hold
    (referred : (info.irqs irq).refs ≠ 0) :
    irqlineGet info irq = (true, info.hold irq) := by
  simp [irqlineGet, referred, IrqInfo.hold]

/-- A reference that is not the last is only counted down. -/
theorem irqlinePut_shared
    {count : Nat}
    (refs : (info.irqs irq).refs = count + 2)
    (found : info.ctrlrOf irq = some ctrlr) :
    irqlinePut rebalancing info irq =
      some (false,
        info.setLine irq { info.irqs irq with refs := count + 1 }) := by
  simp only [irqlinePut, found, refs]
  rw [if_pos (Nat.succ_ne_zero count)]

/-- Returning that reference leaves the line as it was. -/
theorem irqlinePut_hold
    (referred : (info.irqs irq).refs ≠ 0)
    (found : info.ctrlrOf irq = some ctrlr)
    (hw : Hw) :
    irqlinePut rebalancing { info.hold irq with hw } irq =
      some (false, { info with hw }) := by
  obtain ⟨count, refs⟩ := Nat.exists_eq_succ_of_ne_zero referred
  have heldRefs :
      (({ info.hold irq with hw } : IrqInfo Hw).irqs irq).refs = count + 2 := by
    simp [IrqInfo.hold, IrqInfo.setLine, refs]
  have foundHeld :
      ({ info.hold irq with hw } : IrqInfo Hw).ctrlrOf irq = some ctrlr := by
    simpa using found
  rw [irqlinePut_shared rebalancing heldRefs foundHeld]
  have unchanged : { info.irqs irq with refs := count + 1 } = info.irqs irq := by
    rw [← Nat.succ_eq_add_one, ← refs]
  simp [IrqInfo.hold, IrqInfo.setLine, unchanged]

/-- The handlers called are the first ones, up to one that handles. -/
theorem invokeHandlers_called
    (irq : Nat)
    (handlers : List IrqHandlerEnt)
    (hw : Hw) :
    (invokeHandlers serve irq handlers hw).1 <+: handlers ∧
      ((invokeHandlers serve irq handlers hw).1 = [] → handlers = []) ∧
      ((invokeHandlers serve irq handlers hw).2.1 = false →
        (invokeHandlers serve irq handlers hw).1 = handlers) := by
  induction handlers generalizing hw with
  | nil =>
      simp [invokeHandlers]
  | cons ent rest inductionHypothesis =>
      rw [invokeHandlers]
      cases served : serve irq ent hw with
      | mk handled after =>
          cases handled with
          | true =>
              simp [List.prefix_cons_iff]
          | false =>
              obtain ⟨first, _, all⟩ := inductionHypothesis after
              refine ⟨(List.prefix_cons_inj ent).mpr first, by simp,
                fun unhandled => ?_⟩
              exact congrArg (ent :: ·) (all unhandled)

/-- The handlers of a referred line run, and only the hardware changes. -/
theorem invokeIrqHandler_eq
    (small : irq < nrIrqs)
    (referred : (info.irqs irq).refs ≠ 0)
    (found : info.ctrlrOf irq = some ctrlr)
    (hw : Hw) :
    invokeIrqHandler rebalancing serve { info with hw } irq =
      some
        (⟨irq,
          (invokeHandlers serve irq (info.irqs irq).handlers hw).1,
          (invokeHandlers serve irq (info.irqs irq).handlers hw).2.1⟩,
        { info with
          hw := (invokeHandlers serve irq (info.irqs irq).handlers
            hw).2.2 }) := by
  have get :
      irqlineGet { info with hw } irq = (true, { info.hold irq with hw }) := by
    simp [irqlineGet, referred, IrqInfo.hold, IrqInfo.setLine]
  have handlers :
      ((info.hold irq).irqs irq).handlers = (info.irqs irq).handlers :=
    info.hold_handlers info.hw irq irq
  rw [invokeIrqHandler, if_pos small, get]
  simp only [handlers,
    irqlinePut_hold rebalancing referred found, Option.map_some]

/-- What `handle_irq_line` leaves of the hardware before the handlers run. -/
def completedHw
    (ctrlr : IrqCtrlr Hw)
    (prio irq : Nat)
    (hw : Hw) : Hw :=
  ctrlr.eoi
    (ctrlr.disableIrq
      (match ctrlr.priMask with
        | none => hw
        | some (_, setPriority) => setPriority hw prio)
      irq)
    irq

/-- What `handle_irq_line` makes of the hardware after the handlers ran. -/
def reopenedHw
    (ctrlr : IrqCtrlr Hw)
    (irq : Nat)
    (before hw : Hw) : Hw :=
  match ctrlr.priMask with
  | none => ctrlr.enableIrq hw irq
  | some (getPriority, setPriority) =>
      setPriority (ctrlr.enableIrq hw irq) (getPriority before)

/-- A referred line is handled, and only the hardware changes. -/
theorem handleIrqLine_eq
    (small : irq < nrIrqs)
    (referred : (info.irqs irq).refs ≠ 0)
    (found : info.ctrlrOf irq = some ctrlr)
    (hw : Hw) :
    handleIrqLine rebalancing serve { info with hw } irq =
      some
        (⟨irq,
          (invokeHandlers serve irq (info.irqs irq).handlers
            (completedHw ctrlr (info.prioOf irq) irq hw)).1,
          (invokeHandlers serve irq (info.irqs irq).handlers
            (completedHw ctrlr (info.prioOf irq) irq hw)).2.1⟩,
        { info with
          hw := reopenedHw ctrlr irq hw
            (invokeHandlers serve irq (info.irqs irq).handlers
              (completedHw ctrlr (info.prioOf irq) irq hw)).2.2 }) := by
  have get :
      irqlineGet { info with hw } irq = (true, { info.hold irq with hw }) := by
    simp [irqlineGet, referred, IrqInfo.hold, IrqInfo.setLine]
  have foundHeld : (info.hold irq).ctrlrOf irq = some ctrlr :=
    (info.hold_ctrlrOf info.hw irq irq).trans found
  have foundNow :
      ({ info.hold irq with hw } : IrqInfo Hw).ctrlrOf irq = some ctrlr :=
    foundHeld
  have twice : ((info.hold irq).irqs irq).refs ≠ 0 := by
    simp [IrqInfo.hold, IrqInfo.setLine]
  have handlers :
      ((info.hold irq).irqs irq).handlers = (info.irqs irq).handlers :=
    info.hold_handlers info.hw irq irq
  have invoked :=
    invokeIrqHandler_eq rebalancing serve small twice foundHeld
  have put := irqlinePut_hold rebalancing referred found
  rw [handleIrqLine, if_pos small, get]
  simp only [foundNow, IrqInfo.hold_prioOf, invoked, handlers, put,
    Option.map_some]
  cases masked : ctrlr.priMask <;>
    simp [completedHw, reopenedHw, masked]

/-- A line that can be asked whether it is pending. -/
structure Served
    (info : IrqInfo Hw)
    (irq : Nat) : Prop where
  small : irq < nrIrqs
  referred : (info.irqs irq).refs ≠ 0
  ctrlr : ∃ ctrlr, info.ctrlrOf irq = some ctrlr

theorem Served.withHw
    (served : Served info irq)
    (hw : Hw) :
    Served { info with hw } irq :=
  ⟨served.small, served.referred, served.ctrlr⟩

/-- The scan asks the first line, and goes on when it is not pending. -/
theorem scanLines_cons
    (small : irq < nrIrqs)
    (referred : (info.irqs irq).refs ≠ 0)
    (found : info.ctrlrOf irq = some ctrlr)
    (rest : List Nat) :
    scanLines rebalancing serve (irq :: rest) info =
      match ctrlr.irqIsPending info.hw irq (info.prioOf irq) with
      | (true, hw) =>
          (handleIrqLine rebalancing serve { info with hw } irq).map
            fun (dispatch, info) => (some dispatch, info)
      | (false, hw) => scanLines rebalancing serve rest { info with hw } := by
  have prio : (info.hold irq).prioOf irq = info.prioOf irq :=
    info.hold_prioOf info.hw irq irq
  have foundHeld : (info.hold irq).ctrlrOf irq = some ctrlr :=
    (info.hold_ctrlrOf info.hw irq irq).trans found
  have twice : ((info.hold irq).irqs irq).refs ≠ 0 := by
    simp [IrqInfo.hold, IrqInfo.setLine]
  have put := irqlinePut_hold rebalancing referred found
  have handlers :
      ((info.hold irq).irqs irq).handlers = (info.irqs irq).handlers :=
    info.hold_handlers info.hw irq irq
  have handled := handleIrqLine_eq rebalancing serve small twice foundHeld
  have handledNow := handleIrqLine_eq rebalancing serve small referred found
  rw [scanLines, irqlineGet_hold referred]
  simp only [foundHeld, prio, IrqInfo.hold_hw]
  cases ctrlr.irqIsPending info.hw irq (info.prioOf irq) with
  | mk isFound hw =>
      cases isFound with
      | true =>
          simp only [handled, handledNow, put, Option.map_some, handlers, prio]
      | false =>
          simp only [put]

/-- The polls of a scan: the line found, and what they leave of the hardware. -/
def pollLines
    (info : IrqInfo Hw) :
    List Nat → Hw → Option Nat × Hw
  | [], hw => (none, hw)
  | irq :: rest, hw =>
      match info.ctrlrOf irq with
      | none => (none, hw)
      | some ctrlr =>
          match ctrlr.irqIsPending hw irq (info.prioOf irq) with
          | (true, hw) => (some irq, hw)
          | (false, hw) => pollLines info rest hw

theorem pollLines_withHw
    (lines : List Nat)
    (hw polled : Hw) :
    pollLines { info with hw } lines polled = pollLines info lines polled := by
  induction lines generalizing polled with
  | nil =>
      rfl
  | cons irq rest inductionHypothesis =>
      simp only [pollLines, inductionHypothesis]
      rfl

/-- The line that the polls find is one of the lines asked. -/
theorem pollLines_mem
    {lines : List Nat}
    {hw polled : Hw}
    (found : pollLines info lines hw = (some irq, polled)) :
    irq ∈ lines := by
  induction lines generalizing hw with
  | nil =>
      cases found
  | cons line rest inductionHypothesis =>
      rw [pollLines] at found
      split at found
      · cases found
      · split at found
        · cases found
          exact List.mem_cons_self
        · exact List.mem_cons_of_mem line (inductionHypothesis found)

/-- A scan of served lines polls until a line is found, and handles this one. -/
theorem scanLines_poll
    (lines : List Nat)
    (info : IrqInfo Hw)
    (served : ∀ irq ∈ lines, Served info irq) :
    scanLines rebalancing serve lines info =
      match pollLines info lines info.hw with
      | (none, hw) => some (none, { info with hw })
      | (some irq, hw) =>
          (handleIrqLine rebalancing serve { info with hw } irq).map
            fun (dispatch, info) => (some dispatch, info) := by
  induction lines generalizing info with
  | nil =>
      rfl
  | cons irq rest inductionHypothesis =>
      obtain ⟨small, referred, ctrlr, found⟩ := served irq (by simp)
      rw [scanLines_cons rebalancing serve small referred found, pollLines]
      simp only [found]
      cases ctrlr.irqIsPending info.hw irq (info.prioOf irq) with
      | mk isFound hw =>
          cases isFound with
          | true => rfl
          | false =>
              simp only
              rw [inductionHypothesis { info with hw } fun line member =>
                (served line (List.mem_cons_of_mem irq member)).withHw hw,
                pollLines_withHw]

/-- A scan of served lines ends, and changes only the hardware. -/
theorem scanLines_hw
    (lines : List Nat)
    (info : IrqInfo Hw)
    (served : ∀ irq ∈ lines, Served info irq) :
    ∃ dispatch hw,
      scanLines rebalancing serve lines info =
        some (dispatch, { info with hw }) := by
  rw [scanLines_poll rebalancing serve lines info served]
  cases polled : pollLines info lines info.hw with
  | mk line hw =>
      cases line with
      | none =>
          exact ⟨none, hw, rfl⟩
      | some irq =>
          obtain ⟨small, referred, ctrlr, found⟩ :=
            served irq (pollLines_mem polled)
          simp only
          rw [handleIrqLine_eq rebalancing serve small referred found]
          exact ⟨_, _, rfl⟩

/-- A dispatch calls the first handlers of its line, up to one that handles. -/
structure Dispatch.FirstHandlers
    (dispatch : Dispatch)
    (handlers : List IrqHandlerEnt) : Prop where
  first : dispatch.called <+: handlers
  some_called : handlers ≠ [] → dispatch.called ≠ []
  unhandled : dispatch.handled = false → dispatch.called = handlers

/--
The controllers answer by a set of pending lines, and go on to do so after
each line that is not in it.
-/
structure Answering
    (info : IrqInfo Hw)
    (pending : Nat → Bool)
    (steady : Hw → Prop)
    (irq : Nat) : Prop where
  answer : ∀ hw ctrlr,
    steady hw →
    info.ctrlrOf irq = some ctrlr →
    (ctrlr.irqIsPending hw irq (info.prioOf irq)).1 = pending irq
  kept : ∀ hw ctrlr,
    steady hw →
    info.ctrlrOf irq = some ctrlr →
    pending irq = false →
    steady (ctrlr.irqIsPending hw irq (info.prioOf irq)).2

/-- The scan dispatches the first line of the list that is pending. -/
theorem scanLines_pending
    {pending : Nat → Bool}
    {steady : Hw → Prop}
    (lines : List Nat)
    (info : IrqInfo Hw)
    (served : ∀ irq ∈ lines, Served info irq)
    (answering : ∀ irq ∈ lines, Answering info pending steady irq)
    (now : steady info.hw) :
    ∃ dispatch hw,
      scanLines rebalancing serve lines info =
        some (dispatch, { info with hw }) ∧
      ((dispatch = none ∧ ∀ irq ∈ lines, pending irq = false) ∨
        ∃ before after found,
          dispatch = some found ∧
            lines = before ++ found.irq :: after ∧
            (∀ irq ∈ before, pending irq = false) ∧
            pending found.irq = true ∧
            found.FirstHandlers (info.irqs found.irq).handlers) := by
  induction lines generalizing info with
  | nil =>
      exact ⟨none, info.hw, rfl, .inl ⟨rfl, by simp⟩⟩
  | cons irq rest inductionHypothesis =>
      obtain ⟨small, referred, ctrlr, found⟩ := served irq (by simp)
      have asked := answering irq (by simp)
      have answer := asked.answer info.hw ctrlr now found
      have kept := asked.kept info.hw ctrlr now found
      rw [scanLines_cons rebalancing serve small referred found]
      cases polled : ctrlr.irqIsPending info.hw irq (info.prioOf irq) with
      | mk isFound hw =>
          rw [polled] at answer kept
          cases isFound with
          | true =>
              simp only
              rw [handleIrqLine_eq rebalancing serve small referred found]
              have called := invokeHandlers_called serve irq
                (info.irqs irq).handlers
                (completedHw ctrlr (info.prioOf irq) irq hw)
              refine ⟨_, _, rfl, .inr ⟨[], rest, _, rfl, rfl, by simp,
                answer.symm, called.1, ?_, called.2.2⟩⟩
              exact fun nonempty none => nonempty (called.2.1 none)
          | false =>
              obtain ⟨dispatch, last, scanned, result⟩ :=
                inductionHypothesis { info with hw }
                  (fun line member =>
                    (served line (List.mem_cons_of_mem irq member)).withHw hw)
                  (fun line member =>
                    ⟨(answering line (List.mem_cons_of_mem irq member)).answer,
                      (answering line (List.mem_cons_of_mem irq member)).kept⟩)
                  (kept answer.symm)
              refine ⟨dispatch, last, scanned, ?_⟩
              rcases result with
                ⟨none, quiet⟩ |
                  ⟨before, after, first, shape, split, quiet, isPending,
                    handlers⟩
              · refine .inl ⟨none, fun line member => ?_⟩
                rcases List.mem_cons.mp member with same | later
                · exact same ▸ answer.symm
                · exact quiet line later
              · refine .inr ⟨irq :: before, after, first, shape, ?_, ?_,
                  isPending, handlers⟩
                · rw [split, List.cons_append]
                · intro line member
                  rcases List.mem_cons.mp member with same | earlier
                  · exact same ▸ answer.symm
                  · exact quiet line earlier

end References

/-! ## What a call does to the lines -/

section Changes

variable {Hw : Type}
variable (rebalancing : Rebalancing Nat)
variable (serve : Serve Hw)
variable {info after : IrqInfo Hw}

/-- The same lines at the same places, except for handlers and the hardware. -/
structure SameLines (info after : IrqInfo Hw) : Prop where
  lines : after.prioQue.toList = info.prioQue.toList
  ctrlrQue : after.ctrlrQue = info.ctrlrQue
  registered : ∀ irq, after.Registered irq ↔ info.Registered irq
  refs : ∀ irq, (after.irqs irq).refs = (info.irqs irq).refs
  prio : ∀ irq, (after.irqs irq).prio = (info.irqs irq).prio
  ctrlr : ∀ irq, (after.irqs irq).ctrlr = (info.irqs irq).ctrlr

/-- A line came in at the place of its former priority. -/
structure Entered
    (info : IrqInfo Hw)
    (irq prio : Nat)
    (before behind : List Nat)
    (after : IrqInfo Hw) : Prop where
  small : irq < nrIrqs
  fresh : ¬ info.Registered irq
  placed : info.placeOf irq = some (before, behind)
  lines : after.prioQue.toList = before ++ irq :: behind
  ctrlrQue : after.ctrlrQue = info.ctrlrQue
  others : ∀ other, other ≠ irq → after.irqs other = info.irqs other
  registered : after.Registered irq
  refs : (after.irqs irq).refs = 1
  prio : (after.irqs irq).prio = prio
  ctrlr : ∃ ctrlr, after.ctrlrOf irq = some ctrlr

/-- A line went out with its last handler. -/
structure Left
    (info : IrqInfo Hw)
    (irq : Nat)
    (after : IrqInfo Hw) : Prop where
  lines : after.prioQue.toList = info.prioQue.toList.erase irq
  ctrlrQue : after.ctrlrQue = info.ctrlrQue
  others : ∀ other, other ≠ irq → after.irqs other = info.irqs other
  gone : ¬ after.Registered irq

theorem SameLines.ofHw
    (info : IrqInfo Hw)
    (hw : Hw) :
    SameLines info { info with hw } :=
  ⟨rfl, rfl, fun _ => .rfl, fun _ => rfl, fun _ => rfl, fun _ => rfl⟩

/-- New handlers on a line leave the lines as they are. -/
theorem SameLines.ofHandlers
    (info : IrqInfo Hw)
    (irq : Nat)
    {handlers : List IrqHandlerEnt}
    (some_left : handlers ≠ [])
    (registered : info.Registered irq) :
    SameLines info (info.setLine irq { info.irqs irq with handlers }) := by
  constructor
  case lines => rfl
  case ctrlrQue => rfl
  case registered =>
    intro other
    by_cases same : other = irq
    · subst same
      simpa [IrqInfo.Registered, IrqInfo.setLine, some_left] using registered
    · simp [IrqInfo.Registered, IrqInfo.setLine, same]
  all_goals
    intro other
    by_cases same : other = irq <;>
      simp [IrqInfo.setLine, same]

/-- A registration that is accepted for a line without handlers. -/
theorem irqRegisterHandler_fresh
    {irq attr prio place : Nat}
    {before behind : List Nat}
    {ctrlr : IrqCtrlr Hw}
    {hw : Hw}
    (handler privateInfo : Nat)
    (small : irq < nrIrqs)
    (located : findCtrlr irq info.ctrlrQue 0 = some (some place))
    (found : info.ctrlrQue[place]? = some ctrlr)
    (configured : ctrlr.configIrq info.hw irq attr prio = .ok hw)
    (fresh : ¬ info.Registered irq)
    (placed : info.placeOf irq = some (before, behind)) :
    ∃ after,
      irqRegisterHandler rebalancing info irq attr prio handler privateInfo =
        some (.ok (), after) ∧
      Entered info irq prio before behind after ∧
      after.hw = hw := by
  obtain ⟨grown, inserted, nodes⟩ := NodeTree.insert_of_place irq placed
  have noHandlers : (info.irqs irq).handlers = [] :=
    of_not_not fresh
  have registered :
      irqRegisterHandler rebalancing info irq attr prio handler privateInfo =
        some (.ok (),
          addHandler
            (({ info with
                prioQue := rebalancing.afterInsert grown, hw } :
                  IrqInfo Hw).setLine irq
              { info.irqs irq with
                attr, prio, ctrlr := some place, refs := 1 })
            irq handler privateInfo) := by
    rw [irqRegisterHandler, if_neg (Nat.not_le.mpr small), located]
    simp only [noHandlers, ne_eq, not_true_eq_false, if_false, insertLine,
      inserted, Option.map_some, found, configured]
  refine ⟨_, registered, ?_, rfl⟩
  constructor
  case small => exact small
  case fresh => exact fresh
  case placed => exact placed
  case lines =>
    exact (rebalancing.afterInsert_toList grown).trans nodes
  case ctrlrQue => rfl
  case others =>
    intro other different
    simp [addHandler, IrqInfo.setLine, different]
  case registered =>
    simp [IrqInfo.Registered, addHandler, IrqInfo.setLine]
  case refs => simp [addHandler, IrqInfo.setLine]
  case prio => simp [addHandler, IrqInfo.setLine]
  case ctrlr =>
    exact ⟨ctrlr,
      by simp [IrqInfo.ctrlrOf, addHandler, IrqInfo.setLine, found]⟩

/-- What `irq_register_handler` does: refuse, add a handler, or set a line up. -/
inductive Registering
    (info : IrqInfo Hw)
    (irq attr prio handler privateInfo : Nat) :
    Except Errno Unit → IrqInfo Hw → Prop where
  | refused
      {code : Errno}
      {after : IrqInfo Hw}
      (lines : after.prioQue.toList = info.prioQue.toList)
      (ctrlrQue : after.ctrlrQue = info.ctrlrQue)
      (irqs : after.irqs = info.irqs)
      (hw : after.hw = info.hw) :
      Registering info irq attr prio handler privateInfo (.error code) after
  | added
      (small : irq < nrIrqs)
      (registered : info.Registered irq)
      (trigger :
        (info.irqs irq).attr &&& irqAttrTriggerMask = attr &&& irqAttrTriggerMask)
      (samePrio : (info.irqs irq).prio = prio)
      (lineShared : (info.irqs irq).attr &&& irqAttrExclusive = 0)
      (handlerShared : attr &&& irqAttrExclusive = 0) :
      Registering info irq attr prio handler privateInfo (.ok ())
        (addHandler info irq handler privateInfo)
  | entered
      {place : Nat}
      {ctrlr : IrqCtrlr Hw}
      {before behind : List Nat}
      {after : IrqInfo Hw}
      (located : findCtrlr irq info.ctrlrQue 0 = some (some place))
      (found : info.ctrlrQue[place]? = some ctrlr)
      (configured : ctrlr.configIrq info.hw irq attr prio = .ok after.hw)
      (line :
        after.irqs irq =
          { refs := 1, prio, attr, handlers := [⟨handler, privateInfo⟩],
            ctrlr := some place })
      (comes : Entered info irq prio before behind after) :
      Registering info irq attr prio handler privateInfo (.ok ()) after

/-- A registration of a line that is not in the tree without handlers. -/
theorem irqRegisterHandler_registering
    {irq attr prio handler privateInfo : Nat}
    {result : Except Errno Unit}
    (absent : ¬ info.Registered irq → irq ∉ info.prioQue.toList)
    (called :
      irqRegisterHandler rebalancing info irq attr prio handler privateInfo =
        some (result, after)) :
    Registering info irq attr prio handler privateInfo result after := by
  have calledAgain := called
  rw [irqRegisterHandler] at called
  split_ifs at called with big
  · cases called
    exact .refused rfl rfl rfl rfl
  have small := Nat.not_le.mp big
  cases located : findCtrlr irq info.ctrlrQue 0 with
  | none =>
      simp [located] at called
  | some found =>
      cases found with
      | none =>
          simp only [located] at called
          cases called
          exact .refused rfl rfl rfl rfl
      | some place =>
          simp only [located] at called
          split_ifs at called with shared mismatch exclusive again
          · cases called
            exact .refused rfl rfl rfl rfl
          · cases called
            exact .refused rfl rfl rfl rfl
          · cases called
            rw [not_or, not_not, not_not] at mismatch exclusive
            exact .added small shared mismatch.1 mismatch.2 exclusive.1
              exclusive.2
          · cases inserted : insertLine rebalancing info irq with
            | none =>
                simp [inserted] at called
            | some prioQue =>
                cases found : info.ctrlrQue[place]? with
                | none =>
                    simp [inserted, found] at called
                | some ctrlr =>
                    obtain ⟨grown, placed, balanced⟩ :=
                      Option.map_eq_some_iff.mp inserted
                    obtain ⟨before, behind, position, nodes⟩ :=
                      NodeTree.place_of_insert placed
                    simp only [inserted, found] at called
                    cases configured :
                        ctrlr.configIrq info.hw irq attr prio with
                    | error code =>
                        simp only [configured] at called
                        cases called
                        refine .refused ?_ rfl rfl rfl
                        have old := NodeTree.place_append position
                        have outside := absent shared
                        rw [old, List.mem_append, not_or] at outside
                        rw [← balanced, removeLine,
                          rebalancing.afterRemove_toList,
                          NodeTree.remove_toList,
                          rebalancing.afterInsert_toList, nodes, old,
                          List.erase_append_right _ outside.1,
                          List.erase_cons_head]
                    | ok hw =>
                        obtain ⟨other, accepted, comes, rfl⟩ :=
                          irqRegisterHandler_fresh rebalancing
                            handler privateInfo small located found configured
                            (fun registered => shared registered) position
                        rw [calledAgain] at accepted
                        cases accepted
                        refine .entered located found configured ?_ comes
                        simp only [configured] at called
                        rw [← (Prod.mk.inj (Option.some.inj called)).2]
                        simp [addHandler, IrqInfo.setLine, of_not_not shared]

/-- A registration changes nothing in the tree, or enters its line there. -/
theorem irqRegisterHandler_cases
    {irq attr prio handler privateInfo : Nat}
    {result : Except Errno Unit}
    (sound : InfoSound info)
    (called :
      irqRegisterHandler rebalancing info irq attr prio handler privateInfo =
        some (result, after)) :
    (SameLines info after ∧ after.hw = info.hw) ∨
      ∃ place ctrlr before behind,
        findCtrlr irq info.ctrlrQue 0 = some (some place) ∧
          info.ctrlrQue[place]? = some ctrlr ∧
          ctrlr.configIrq info.hw irq attr prio = .ok after.hw ∧
          Entered info irq prio before behind after := by
  have absent : ¬ info.Registered irq → irq ∉ info.prioQue.toList :=
    fun fresh member => fresh ((sound.listed irq).mp member)
  cases irqRegisterHandler_registering rebalancing absent called with
  | refused lines ctrlrQue irqs hw =>
      refine .inl ⟨⟨lines, ctrlrQue, fun line => ?_, fun line => ?_,
        fun line => ?_, fun line => ?_⟩, hw⟩
      · rw [IrqInfo.Registered, IrqInfo.Registered, irqs]
      all_goals rw [irqs]
  | added _ registered =>
      exact .inl ⟨SameLines.ofHandlers info irq (by simp) registered, rfl⟩
  | entered located found configured _ comes =>
      exact .inr ⟨_, _, _, _, located, found, configured, comes⟩

/-- What the release of a line leaves of the hardware. -/
def releasedHw
    (ctrlr : IrqCtrlr Hw)
    (prio irq : Nat)
    (hw : Hw) : Hw :=
  ctrlr.disableIrq
    (match ctrlr.priMask with
      | none => hw
      | some (getPriority, setPriority) =>
          if prio > getPriority hw then setPriority hw prio else hw)
    irq

/-- Removing a handler changes nothing in the tree, or its line leaves. -/
theorem irqUnregisterHandler_cases
    {irq handler : Nat}
    {result : Except Errno Unit}
    (sound : InfoSound info)
    (called :
      irqUnregisterHandler rebalancing info irq handler =
        some (result, after)) :
    (SameLines info after ∧ after.hw = info.hw) ∨
      ∃ ctrlr,
        info.ctrlrOf irq = some ctrlr ∧
          after.hw = releasedHw ctrlr (info.prioOf irq) irq info.hw ∧
          Left info irq after := by
  have unchanged : SameLines info info ∧ info.hw = info.hw :=
    ⟨SameLines.ofHw info info.hw, rfl⟩
  rw [irqUnregisterHandler] at called
  split_ifs at called with big
  · cases called
    exact .inl unchanged
  simp only at called
  split_ifs at called with uncontrolled
  cases handled : (info.irqs irq).handlers.find? (·.handler = handler) with
  | none =>
      simp only [handled] at called
      cases called
      exact .inl unchanged
  | some ent =>
      have registered : info.Registered irq :=
        List.ne_nil_of_mem (List.mem_of_find?_eq_some handled)
      simp only [handled] at called
      split_ifs at called with isLast
      · obtain ⟨ctrlr, found⟩ := sound.ctrlr irq registered
        have foundNow :
            (info.setLine irq
              { info.irqs irq with
                handlers := (info.irqs irq).handlers.erase ent }).ctrlrOf irq =
              some ctrlr := by
          rw [← found]
          simp [IrqInfo.ctrlrOf, IrqInfo.setLine]
        have refs :
            ((info.setLine irq
              { info.irqs irq with
                handlers := (info.irqs irq).handlers.erase ent }).irqs
                  irq).refs = 0 + 1 := by
          rw [← sound.refs irq registered]
          simp [IrqInfo.setLine]
        simp only [irqlinePut, foundNow, refs, ne_eq, not_true_eq_false,
          if_false, Option.map_some, Option.some.injEq, Prod.mk.injEq] at called
        obtain ⟨-, same⟩ := called
        subst same
        refine .inr ⟨ctrlr, found, ?_, ?_, rfl, ?_, ?_⟩
        · cases masked : ctrlr.priMask <;>
            simp [releasedHw, masked, IrqInfo.setLine, IrqInfo.prioOf]
        · simp [removeLine, rebalancing.afterRemove_toList,
            NodeTree.remove_toList, IrqInfo.setLine]
        · intro other different
          simp [IrqInfo.setLine, different]
        · simp only [IrqInfo.setLine, Function.update_self] at isLast
          simp [IrqInfo.Registered, IrqInfo.setLine, isLast]
      · cases called
        refine .inl ⟨SameLines.ofHandlers info irq ?_ registered, rfl⟩
        simpa [IrqInfo.setLine] using isLast

/-- The registered lines are served. -/
theorem InfoSound.served
    (sound : InfoSound info) :
    ∀ irq ∈ info.prioQue.toList.reverse, Served info irq := by
  intro irq member
  have registered := (sound.listed irq).mp (List.mem_reverse.mp member)
  refine ⟨sound.small irq registered, ?_, sound.ctrlr irq registered⟩
  rw [sound.refs irq registered]
  exact Nat.one_ne_zero

/-- Every call leaves the lines, or brings one in or out. -/
theorem irqNext_cases
    {call : IrqCall Hw}
    (sound : InfoSound info)
    (called : irqNext rebalancing serve info call = some after) :
    SameLines info after ∨
      (∃ irq attr prio handler privateInfo place ctrlr before behind,
        call = .register irq attr prio handler privateInfo ∧
          findCtrlr irq info.ctrlrQue 0 = some (some place) ∧
          info.ctrlrQue[place]? = some ctrlr ∧
          ctrlr.configIrq info.hw irq attr prio = .ok after.hw ∧
          Entered info irq prio before behind after) ∨
      ∃ irq, Left info irq after := by
  cases call with
  | register irq attr prio handler privateInfo =>
      obtain ⟨⟨result, last⟩, registered, same⟩ :=
        Option.map_eq_some_iff.mp called
      cases same
      rcases irqRegisterHandler_cases rebalancing sound registered with
        ⟨sameLines, -⟩ |
          ⟨place, ctrlr, before, behind, located, found, configured, entered⟩
      · exact .inl sameLines
      · exact .inr (.inl ⟨irq, attr, prio, handler, privateInfo, place, ctrlr,
          before, behind, rfl, located, found, configured, entered⟩)
  | unregister irq handler =>
      obtain ⟨⟨result, last⟩, unregistered, same⟩ :=
        Option.map_eq_some_iff.mp called
      cases same
      rcases irqUnregisterHandler_cases rebalancing sound unregistered with
        ⟨sameLines, -⟩ | ⟨-, -, -, left⟩
      · exact .inl sameLines
      · exact .inr (.inr ⟨irq, left⟩)
  | handle =>
      obtain ⟨dispatch, hw, scanned⟩ :=
        scanLines_hw rebalancing serve _ info sound.served
      rw [irqNext, irqHandleIrq, scanned] at called
      cases called
      exact .inl (SameLines.ofHw info hw)
  | device hw =>
      cases called
      exact .inl (SameLines.ofHw info hw)

theorem SameLines.ctrlrOf
    (same : SameLines info after)
    (irq : Nat) :
    after.ctrlrOf irq = info.ctrlrOf irq := by
  rw [IrqInfo.ctrlrOf, IrqInfo.ctrlrOf, same.ctrlr, same.ctrlrQue]

theorem SameLines.sound
    (same : SameLines info after)
    (sound : InfoSound info) :
    InfoSound after := by
  refine ⟨same.lines ▸ sound.nodup, fun irq => ?_, fun irq registered => ?_,
    fun irq registered => ?_, fun irq registered => ?_⟩
  · rw [same.lines, sound.listed, same.registered]
  · exact sound.small irq ((same.registered irq).mp registered)
  · rw [same.refs, sound.refs irq ((same.registered irq).mp registered)]
  · rw [same.ctrlrOf]
    exact sound.ctrlr irq ((same.registered irq).mp registered)

/-- A line that stays what it was is registered as before. -/
theorem registered_congr
    {irq : Nat}
    (same : after.irqs irq = info.irqs irq) :
    after.Registered irq ↔ info.Registered irq := by
  rw [IrqInfo.Registered, IrqInfo.Registered, same]

theorem ctrlrOf_congr
    {irq : Nat}
    (same : after.irqs irq = info.irqs irq)
    (sameQue : after.ctrlrQue = info.ctrlrQue) :
    after.ctrlrOf irq = info.ctrlrOf irq := by
  rw [IrqInfo.ctrlrOf, IrqInfo.ctrlrOf, same, sameQue]

theorem Entered.oldLines
    {irq prio : Nat}
    {before behind : List Nat}
    (entered : Entered info irq prio before behind after) :
    info.prioQue.toList = before ++ behind :=
  NodeTree.place_append entered.placed

theorem Entered.sound
    {irq prio : Nat}
    {before behind : List Nat}
    (entered : Entered info irq prio before behind after)
    (sound : InfoSound info) :
    InfoSound after := by
  have absent : irq ∉ before ++ behind := fun member =>
    entered.fresh ((sound.listed irq).mp (entered.oldLines ▸ member))
  have middle : (before ++ irq :: behind).Perm (irq :: (before ++ behind)) :=
    List.perm_middle
  have member : ∀ other,
      other ∈ after.prioQue.toList ↔
        other = irq ∨ other ∈ info.prioQue.toList := by
    intro other
    rw [entered.lines, middle.mem_iff, List.mem_cons, entered.oldLines]
  have stays : ∀ other,
      after.Registered other →
        other = irq ∨ other ≠ irq ∧ info.Registered other := by
    intro other registered
    by_cases same : other = irq
    · exact .inl same
    · exact .inr ⟨same,
        (registered_congr (entered.others other same)).mp registered⟩
  constructor
  case nodup =>
    rw [entered.lines, middle.nodup_iff, List.nodup_cons]
    exact ⟨absent, entered.oldLines ▸ sound.nodup⟩
  case listed =>
    intro other
    rw [member]
    by_cases same : other = irq
    · subst same
      exact ⟨fun _ => entered.registered, fun _ => .inl rfl⟩
    · rw [registered_congr (entered.others other same), sound.listed]
      exact or_iff_right same
  case small =>
    intro other registered
    rcases stays other registered with same | ⟨_, before⟩
    · exact same ▸ entered.small
    · exact sound.small other before
  case refs =>
    intro other registered
    rcases stays other registered with same | ⟨different, before⟩
    · exact same ▸ entered.refs
    · rw [entered.others other different]
      exact sound.refs other before
  case ctrlr =>
    intro other registered
    rcases stays other registered with same | ⟨different, before⟩
    · exact same ▸ entered.ctrlr
    · rw [ctrlrOf_congr (entered.others other different) entered.ctrlrQue]
      exact sound.ctrlr other before

theorem Left.sound
    {irq : Nat}
    (left : Left info irq after)
    (sound : InfoSound info) :
    InfoSound after := by
  have stays : ∀ other,
      after.Registered other → other ≠ irq ∧ info.Registered other := by
    intro other registered
    have different : other ≠ irq := fun same =>
      left.gone (same ▸ registered)
    exact ⟨different,
      (registered_congr (left.others other different)).mp registered⟩
  constructor
  case nodup =>
    rw [left.lines]
    exact sound.nodup.erase irq
  case listed =>
    intro other
    rw [left.lines, sound.nodup.mem_erase_iff, sound.listed]
    refine ⟨fun ⟨different, registered⟩ => ?_, stays other⟩
    exact (registered_congr (left.others other different)).mpr registered
  all_goals
    intro other registered
    obtain ⟨different, before⟩ := stays other registered
  case small => exact sound.small other before
  case refs =>
    rw [left.others other different]
    exact sound.refs other before
  case ctrlr =>
    rw [ctrlrOf_congr (left.others other different) left.ctrlrQue]
    exact sound.ctrlr other before

theorem prioOf_congr
    {irq : Nat}
    (same : after.irqs irq = info.irqs irq) :
    after.prioOf irq = info.prioOf irq := by
  rw [IrqInfo.prioOf, IrqInfo.prioOf, same]

/-- What a number's controller is: the place in the queue and what is there. -/
theorem ctrlrFor_some
    {irq : Nat}
    {ctrlr : IrqCtrlr Hw}
    (served : info.ctrlrFor irq = some ctrlr) :
    ∃ place,
      findCtrlr irq info.ctrlrQue 0 = some (some place) ∧
        info.ctrlrQue[place]? = some ctrlr := by
  obtain ⟨place, located, found⟩ := Option.bind_eq_some_iff.mp served
  exact ⟨place, Option.join_eq_some_iff.mp located, found⟩

/-- A call keeps the tree of the registered lines. -/
theorem irqNext_sound
    {call : IrqCall Hw}
    (sound : InfoSound info)
    (called : irqNext rebalancing serve info call = some after) :
    InfoSound after := by
  rcases irqNext_cases rebalancing serve sound called with
    same |
      ⟨irq, attr, prio, handler, privateInfo, place, ctrlr, before, behind,
        -, -, -, -, entered⟩ |
      ⟨irq, left⟩
  · exact same.sound sound
  · exact entered.sound sound
  · exact left.sound sound

/-- After `irq_init` there are no lines. -/
theorem irqInit_sound
    (ctrlrQue : List (IrqCtrlr Hw))
    (hw : Hw) :
    InfoSound (irqInit ctrlrQue hw) := by
  constructor <;> simp [irqInit, NodeTree.toList, IrqInfo.Registered]

end Changes

end RiscvWorkshop.Irq
