import Mathlib
import RiscvWorkshop.Run
import RiscvWorkshop.KernelBase
import RiscvWorkshop.SearchTree

namespace RiscvWorkshop.Irq

open SearchTree

/-!
# Interrupt lines

Registration of interrupt handlers and the dispatch of a pending line.  The
interrupt controllers act on a hardware state of any type; the tree of lines
is rebalanced in any way that keeps the order of its nodes.  A call that stops
at an assertion has no result.
-/

/-- `NR_IRQS`. -/
def nrIrqs : Nat := 256

/-- `IRQ_ATTR_EXCLUSIVE`: the line cannot be shared. -/
def irqAttrExclusive : Nat := 0x1

/-- `IRQ_ATTR_EDGE`: the line is triggered by an edge. -/
def irqAttrEdge : Nat := 0x10

/-- `IRQ_ATTR_TRIGGER_MASK`. -/
def irqAttrTriggerMask : Nat := 0xf0

/-- `irq_handler_ent`: a handler's address and its private information. -/
structure IrqHandlerEnt where
  handler : Nat
  privateInfo : Nat
deriving Repr, DecidableEq

/--
`irq_ctrlr`: the numbers that a controller serves and its operations on the
hardware.  The two operations on the priority mask are there together or not.
-/
structure IrqCtrlr (Hw : Type) where
  minIrq : Nat
  maxIrq : Nat
  configIrq : Hw → Nat → Nat → Nat → Except Errno Hw
  irqIsPending : Hw → Nat → Nat → Bool × Hw
  enableIrq : Hw → Nat → Hw
  disableIrq : Hw → Nat → Hw
  priMask : Option ((Hw → Nat) × (Hw → Nat → Hw))
  eoi : Hw → Nat → Hw

/-- `irq_line`, with the place of its controller in the queue. -/
structure IrqLine where
  refs : Nat
  prio : Nat
  attr : Nat
  handlers : List IrqHandlerEnt
  ctrlr : Option Nat

/-- `irq_info`, with the hardware behind the controllers. -/
structure IrqInfo (Hw : Type) where
  prioQue : NodeTree Nat
  ctrlrQue : List (IrqCtrlr Hw)
  irqs : Nat → IrqLine
  hw : Hw

/-- `irq_init`, with the controllers that are registered afterwards. -/
def irqInit
    {Hw : Type}
    (ctrlrQue : List (IrqCtrlr Hw))
    (hw : Hw) : IrqInfo Hw :=
  { prioQue := .leaf
    ctrlrQue
    irqs := fun _ =>
      { refs := 0, prio := 0, attr := 0, handlers := [], ctrlr := none }
    hw }

/-- `irq_line_cmp` of the priorities of two lines. -/
def irqLineCmp (key ent : Nat) : Int :=
  if key > ent then -1
  else if key < ent then 1
  else 0

/-- `irq_ctrlr_cmp_by_irq`, with its assertion. -/
def irqCtrlrCmpByIrq
    {Hw : Type}
    (irq : Nat)
    (ent : IrqCtrlr Hw) : Option Int :=
  if irq < ent.minIrq then some (-1)
  else if irq > ent.maxIrq then some 1
  else if ent.minIrq ≤ irq ∧ irq < ent.maxIrq then some 0
  else none

/-- `queue_find_element` over the controllers, from a place in the queue on. -/
def findCtrlr
    {Hw : Type}
    (irq : Nat) :
    List (IrqCtrlr Hw) → Nat → Option (Option Nat)
  | [], _ => some none
  | ctrlr :: rest, place =>
      match irqCtrlrCmpByIrq irq ctrlr with
      | none => none
      | some order =>
          if order = 0 then some (some place)
          else findCtrlr irq rest (place + 1)

namespace IrqInfo

variable {Hw : Type}

/-- Rewrite one line. -/
def setLine
    (info : IrqInfo Hw)
    (irq : Nat)
    (line : IrqLine) : IrqInfo Hw :=
  { info with irqs := Function.update info.irqs irq line }

/-- The controller of a line. -/
def ctrlrOf
    (info : IrqInfo Hw)
    (irq : Nat) : Option (IrqCtrlr Hw) :=
  (info.irqs irq).ctrlr.bind fun place => info.ctrlrQue[place]?

/-- The priority of a line. -/
def prioOf
    (info : IrqInfo Hw)
    (irq : Nat) : Nat :=
  (info.irqs irq).prio

end IrqInfo

section Lines

variable {Hw : Type}
variable (rebalancing : Rebalancing Nat)

/-- `RB_INSERT` of a line by the priority it has now. -/
def insertLine
    (info : IrqInfo Hw)
    (irq : Nat) : Option (NodeTree Nat) :=
  (info.prioQue.insert
    (fun ent => irqLineCmp (info.prioOf irq) (info.prioOf ent)) irq).map
      rebalancing.afterInsert

/-- `RB_REMOVE` of a line. -/
def removeLine
    (irq : Nat)
    (prioQue : NodeTree Nat) : NodeTree Nat :=
  rebalancing.afterRemove (prioQue.remove irq)

/-- `irqline_get`: a reference to a line that is not being released. -/
def irqlineGet
    (info : IrqInfo Hw)
    (irq : Nat) : Bool × IrqInfo Hw :=
  let line := info.irqs irq
  if line.refs = 0 then
    (false, info)
  else
    (true, info.setLine irq { line with refs := line.refs + 1 })

/-- `irqline_put`: the last reference takes the line out of the tree. -/
def irqlinePut
    (info : IrqInfo Hw)
    (irq : Nat) : Option (Bool × IrqInfo Hw) :=
  match info.ctrlrOf irq with
  | none => none
  | some ctrlr =>
      let line := info.irqs irq
      match line.refs with
      | 0 => none
      | refs + 1 =>
          let info := info.setLine irq { line with refs }
          if refs ≠ 0 then
            some (false, info)
          else
            let hw :=
              match ctrlr.priMask with
              | none => info.hw
              | some (getPriority, setPriority) =>
                  if line.prio > getPriority info.hw then
                    setPriority info.hw line.prio
                  else
                    info.hw
            some (true,
              { info with
                prioQue := removeLine rebalancing irq info.prioQue
                hw := ctrlr.disableIrq hw irq })

/-- Add a handler to the queue of a line. -/
def addHandler
    (info : IrqInfo Hw)
    (irq handler privateInfo : Nat) : IrqInfo Hw :=
  let line := info.irqs irq
  info.setLine irq
    { line with handlers := line.handlers ++ [{ handler, privateInfo }] }

/-- `irq_register_handler`. -/
def irqRegisterHandler
    (info : IrqInfo Hw)
    (irq attr prio handler privateInfo : Nat) :
    Option (Except Errno Unit × IrqInfo Hw) :=
  if irq ≥ nrIrqs then
    some (.error .einval, info)
  else
    match findCtrlr irq info.ctrlrQue 0 with
    | none => none
    | some none => some (.error .enoent, info)
    | some (some place) =>
        let line := info.irqs irq
        if line.handlers ≠ [] then
          if line.attr &&& irqAttrTriggerMask ≠ attr &&& irqAttrTriggerMask ∨
              line.prio ≠ prio then
            some (.error .einval, info)
          else if line.attr &&& irqAttrExclusive ≠ 0 ∨
              attr &&& irqAttrExclusive ≠ 0 then
            some (.error .ebusy, info)
          else if line.ctrlr = some place then
            some (.ok (), addHandler info irq handler privateInfo)
          else
            none
        else
          -- the line goes into the tree by the priority left in it from before
          match insertLine rebalancing info irq, info.ctrlrQue[place]? with
          | some prioQue, some ctrlr =>
              match ctrlr.configIrq info.hw irq attr prio with
              | .error code =>
                  some (.error code,
                    { info with
                      prioQue := removeLine rebalancing irq prioQue })
              | .ok hw =>
                  let line :=
                    { line with attr, prio, ctrlr := some place, refs := 1 }
                  let info := { info with prioQue, hw }
                  some (.ok (),
                    addHandler (info.setLine irq line) irq handler
                      privateInfo)
          | _, _ => none

/-- `irq_unregister_handler`. -/
def irqUnregisterHandler
    (info : IrqInfo Hw)
    (irq handler : Nat) :
    Option (Except Errno Unit × IrqInfo Hw) :=
  if irq ≥ nrIrqs then
    some (.error .einval, info)
  else
    let line := info.irqs irq
    if line.ctrlr = none then
      none
    else
      match line.handlers.find? (·.handler = handler) with
      | none => some (.error .enoent, info)
      | some ent =>
          let info :=
            info.setLine irq { line with handlers := line.handlers.erase ent }
          if (info.irqs irq).handlers = [] then
            (irqlinePut rebalancing info irq).map fun (_, info) =>
              (.ok (), info)
          else
            some (.ok (), info)

/-- A dispatched line, the handlers called, and whether one handled it. -/
structure Dispatch where
  irq : Nat
  called : List IrqHandlerEnt
  handled : Bool
deriving Repr, DecidableEq

/-- The handlers of a line run on the hardware; true is `IRQ_HANDLED`. -/
abbrev Serve (Hw : Type) :=
  Nat → IrqHandlerEnt → Hw → Bool × Hw

variable (serve : Serve Hw)

/-- The loop of `invoke_irq_handler` over the handlers of a line. -/
def invokeHandlers
    (irq : Nat) :
    List IrqHandlerEnt → Hw → List IrqHandlerEnt × Bool × Hw
  | [], hw => ([], false, hw)
  | ent :: rest, hw =>
      match serve irq ent hw with
      | (true, hw) => ([ent], true, hw)
      | (false, hw) =>
          let (called, handled, hw) := invokeHandlers irq rest hw
          (ent :: called, handled, hw)

/-- `invoke_irq_handler`. -/
def invokeIrqHandler
    (info : IrqInfo Hw)
    (irq : Nat) : Option (Dispatch × IrqInfo Hw) :=
  if irq < nrIrqs then
    match irqlineGet info irq with
    | (false, info) => some (⟨irq, [], false⟩, info)
    | (true, info) =>
        let (called, handled, hw) :=
          invokeHandlers serve irq (info.irqs irq).handlers info.hw
        (irqlinePut rebalancing { info with hw } irq).map fun (_, info) =>
          (⟨irq, called, handled⟩, info)
  else
    none

/-- `handle_irq_line`: mask the line, complete the interrupt, call the handlers. -/
def handleIrqLine
    (info : IrqInfo Hw)
    (irq : Nat) : Option (Dispatch × IrqInfo Hw) :=
  if irq < nrIrqs then
    match irqlineGet info irq with
    | (false, info) => some (⟨irq, [], false⟩, info)
    | (true, info) =>
        match info.ctrlrOf irq with
        | none => none
        | some ctrlr =>
            let mask :=
              ctrlr.priMask.map fun (getPriority, _) => getPriority info.hw
            let hw :=
              match ctrlr.priMask with
              | none => info.hw
              | some (_, setPriority) => setPriority info.hw (info.prioOf irq)
            let hw := ctrlr.eoi (ctrlr.disableIrq hw irq) irq
            match invokeIrqHandler rebalancing serve { info with hw } irq with
            | none => none
            | some (dispatch, info) =>
                (irqlinePut rebalancing info irq).map fun (_, info) =>
                  let hw := ctrlr.enableIrq info.hw irq
                  let hw :=
                    match ctrlr.priMask, mask with
                    | some (_, setPriority), some prio => setPriority hw prio
                    | _, _ => hw
                  (dispatch, { info with hw })
  else
    none

/-- The loop of `irq_handle_irq` over the lines, in the order of the scan. -/
def scanLines :
    List Nat → IrqInfo Hw → Option (Option Dispatch × IrqInfo Hw)
  | [], info => some (none, info)
  | irq :: rest, info =>
      match irqlineGet info irq with
      | (false, info) => scanLines rest info
      | (true, info) =>
          match info.ctrlrOf irq with
          | none => none
          | some ctrlr =>
              match ctrlr.irqIsPending info.hw irq (info.prioOf irq) with
              | (true, hw) =>
                  match handleIrqLine rebalancing serve
                      { info with hw } irq with
                  | none => none
                  | some (dispatch, info) =>
                      (irqlinePut rebalancing info irq).map fun (_, info) =>
                        (some dispatch, info)
              | (false, hw) =>
                  match irqlinePut rebalancing { info with hw } irq with
                  | none => none
                  | some (_, info) => scanLines rest info

/-- `irq_handle_irq`: the first line found pending from the right is dispatched. -/
def irqHandleIrq (info : IrqInfo Hw) :
    Option (Option Dispatch × IrqInfo Hw) :=
  scanLines rebalancing serve info.prioQue.toList.reverse info

end Lines

end RiscvWorkshop.Irq
