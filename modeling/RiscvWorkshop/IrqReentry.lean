import Mathlib
import RiscvWorkshop.IrqScan

namespace RiscvWorkshop.Irq

open SearchTree

/-!
# Handlers that run while lines come and go

A handler runs without the lock of the interrupt management: it may register
and unregister handlers, its own among them, be interrupted by other lines, or
run beside the calls of other processors.  A dispatch is therefore cut at the
calls of its handlers, and any steps may come between them.
-/

/--
An `irq_handle_irq` call whose handler runs: the line, the place of its
controller in the queue, the priority mask to restore, and the place of the
handler's entry, none once the entry has been taken off.
-/
structure Frame where
  irq : Nat
  ctrlr : Nat
  mask : Option Nat
  place : Option Nat
deriving Repr, DecidableEq

/-- A handler's entry with the attribute and the priority it was registered with. -/
structure Registration where
  ent : IrqHandlerEnt
  attr : Nat
  prio : Nat
deriving Repr, DecidableEq

/--
The interrupt management with the dispatches under way.  What the handlers of
a line were registered with is only recorded.
-/
structure IrqSystem (Hw : Type) where
  info : IrqInfo Hw
  frames : List Frame
  asked : Nat → List Registration

/-- A change that devices or handlers make to the hardware unmasks no line. -/
structure HwChange
    {Hw : Type}
    (masked : Hw → Nat → Prop) where
  apply : Hw → Hw
  keeps : ∀ hw irq, masked hw irq → masked (apply hw) irq

/-- The steps; a handler returns with `IRQ_HANDLED` or not. -/
inductive IrqAction
    {Hw : Type}
    (masked : Hw → Nat → Prop) where
  | register (irq attr prio handler privateInfo : Nat)
  | unregister (irq handler : Nat)
  | interrupt
  | handlerReturns (index : Nat) (handled : Bool)
  | device (change : HwChange masked)

section Dispatches

variable {Hw : Type}
variable (rebalancing : Rebalancing Nat)

/-- The scan of `irq_handle_irq`; a pending line is found with a reference. -/
def findPending :
    List Nat → IrqInfo Hw → Option (Option Nat × IrqInfo Hw)
  | [], info => some (none, info)
  | irq :: rest, info =>
      match irqlineGet info irq with
      | (false, info) => findPending rest info
      | (true, info) =>
          match info.ctrlrOf irq with
          | none => none
          | some ctrlr =>
              match ctrlr.irqIsPending info.hw irq (info.prioOf irq) with
              | (true, hw) => some (some irq, { info with hw })
              | (false, hw) =>
                  match irqlinePut rebalancing { info with hw } irq with
                  | none => none
                  | some (_, info) => findPending rest info

/-- The priority mask that a dispatch saved is set again. -/
def restoredHw
    (ctrlr : IrqCtrlr Hw)
    (mask : Option Nat)
    (hw : Hw) : Hw :=
  match ctrlr.priMask, mask with
  | some (_, setPriority), some prio => setPriority hw prio
  | _, _ => hw

/--
`handle_irq_line` after the handlers, and then `irq_handle_irq`: the line is
opened again before the last reference is returned.
-/
def closeLine
    (info : IrqInfo Hw)
    (frame : Frame) : Option (IrqInfo Hw) :=
  match irqlinePut rebalancing info frame.irq, info.ctrlrQue[frame.ctrlr]? with
  | some (_, info), some ctrlr =>
      let hw :=
        restoredHw ctrlr frame.mask (ctrlr.enableIrq info.hw frame.irq)
      (irqlinePut rebalancing { info with hw } frame.irq).map (·.2)
  | _, _ => none

/-- The end of `invoke_irq_handler`, and of the calls around it. -/
def leaveLine
    (info : IrqInfo Hw)
    (frame : Frame) : Option (IrqInfo Hw) :=
  match irqlinePut rebalancing info frame.irq with
  | none => none
  | some (_, info) => closeLine rebalancing info frame

/-- `queue_for_each`: the handler at a place is called, or the call ends. -/
def callHandler
    (info : IrqInfo Hw)
    (frame : Frame)
    (place : Nat) : Option (Option Frame × IrqInfo Hw) :=
  if place < (info.irqs frame.irq).handlers.length then
    some (some { frame with place := some place }, info)
  else
    (leaveLine rebalancing info frame).map fun info => (none, info)

/-- `handle_irq_line` up to the call of the first handler. -/
def dispatchLine
    (info : IrqInfo Hw)
    (irq : Nat) : Option (Option Frame × IrqInfo Hw) :=
  if irq < nrIrqs then
    match irqlineGet info irq with
    | (false, info) =>
        (irqlinePut rebalancing info irq).map fun (_, info) => (none, info)
    | (true, info) =>
        match (info.irqs irq).ctrlr, info.ctrlrOf irq with
        | some place, some ctrlr =>
            let mask :=
              ctrlr.priMask.map fun (getPriority, _) => getPriority info.hw
            let hw := completedHw ctrlr (info.prioOf irq) irq info.hw
            let frame := { irq, ctrlr := place, mask, place := none }
            match irqlineGet { info with hw } irq with
            | (false, info) =>
                (closeLine rebalancing info frame).map fun info => (none, info)
            | (true, info) => callHandler rebalancing info frame 0
        | _, _ => none
  else
    none

/-- A handler returns: the next one is called unless it handled the interrupt. -/
def handlerReturns
    (info : IrqInfo Hw)
    (frame : Frame)
    (handled : Bool) : Option (Option Frame × IrqInfo Hw) :=
  if handled then
    (leaveLine rebalancing info frame).map fun info => (none, info)
  else
    match frame.place with
    -- an entry taken off is linked to itself: the loop does not end
    | none => none
    | some place => callHandler rebalancing info frame (place + 1)

end Dispatches

/-- The frame once the entry at a place is taken off the queue of its line. -/
def Frame.takenOff
    (irq place : Nat)
    (frame : Frame) : Frame :=
  if frame.irq = irq then
    { frame with
      place :=
        frame.place.bind fun current =>
          if current = place then none
          else if place < current then some (current - 1)
          else some current }
  else
    frame

namespace IrqSystem

variable {Hw : Type}

/-- The dispatches under way on a line. -/
def underWay
    (system : IrqSystem Hw)
    (irq : Nat) : Nat :=
  system.frames.countP (·.irq = irq)

/-- `irq_init`, with the controllers that are registered afterwards. -/
def initial
    (ctrlrQue : List (IrqCtrlr Hw))
    (hw : Hw) : IrqSystem Hw :=
  { info := irqInit ctrlrQue hw
    frames := []
    asked := fun _ => [] }

/-- The dispatches after a step of one of them. -/
def withFrame
    (system : IrqSystem Hw)
    (frames : List Frame) :
    Option Frame × IrqInfo Hw → IrqSystem Hw
  | (frame, info) => { system with info, frames := frame.toList ++ frames }

end IrqSystem

section Steps

variable {Hw : Type}
variable (rebalancing : Rebalancing Nat)

/-- One step, with what the call that ends or begins with it returns. -/
def irqStep
    {masked : Hw → Nat → Prop}
    (system : IrqSystem Hw) :
    IrqAction masked → Option (Except Errno Unit × IrqSystem Hw)
  | .register irq attr prio handler privateInfo =>
      match irqRegisterHandler rebalancing system.info irq attr prio handler
          privateInfo with
      | none => none
      | some (.error code, info) => some (.error code, { system with info })
      | some (.ok (), info) =>
          let registration := ⟨⟨handler, privateInfo⟩, attr, prio⟩
          some (.ok (),
            { system with
              info
              asked :=
                Function.update system.asked irq
                  (system.asked irq ++ [registration]) })
  | .unregister irq handler =>
      match irqUnregisterHandler rebalancing system.info irq handler with
      | none => none
      | some (.error code, info) => some (.error code, { system with info })
      | some (.ok (), info) =>
          let place :=
            (system.info.irqs irq).handlers.findIdx (·.handler = handler)
          some (.ok (),
            { info
              frames := system.frames.map (Frame.takenOff irq place)
              asked :=
                Function.update system.asked irq
                  ((system.asked irq).eraseP (·.ent.handler = handler)) })
  | .interrupt =>
      match findPending rebalancing system.info.prioQue.toList.reverse
          system.info with
      | none => none
      | some (none, info) => some (.error .esrch, { system with info })
      | some (some irq, info) =>
          (dispatchLine rebalancing info irq).map fun left =>
            (.ok (), system.withFrame system.frames left)
  | .handlerReturns index handled =>
      match system.frames[index]? with
      | none => none
      | some frame =>
          (handlerReturns rebalancing system.info frame handled).map fun left =>
            (.ok (), system.withFrame (system.frames.eraseIdx index) left)
  | .device change =>
      some (.ok (),
        { system with
          info := { system.info with hw := change.apply system.info.hw } })

/-- The state after a step. -/
def irqSystemNext
    {masked : Hw → Nat → Prop}
    (system : IrqSystem Hw)
    (action : IrqAction masked) : Option (IrqSystem Hw) :=
  (irqStep rebalancing system action).map (·.2)

end Steps

end RiscvWorkshop.Irq
