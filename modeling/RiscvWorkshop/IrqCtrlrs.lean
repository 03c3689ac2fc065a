import Mathlib
import RiscvWorkshop.IrqLine

namespace RiscvWorkshop.IrqCtrlrs

open Irq SearchTree

/-!
# Interrupt controllers that come and go

Registration of interrupt controllers and of the handlers on their lines.  A
controller is known by the address of its record, in the queue and in the
lines alike, so a line can name a controller that has left the queue.  A call
that stops at an assertion has no result.
-/

/-- The record of a controller, as its driver fills it in. -/
structure Ctrlr (Hw : Type) extends IrqCtrlr Hw where
  opsAreValid : Bool
  initCtrlr : Hw → Except Errno Hw
  finalize : Hw → Hw

/-- `irq_info`, with the records of the controllers at their addresses. -/
structure CtrlrInfo (Hw : Type) where
  ctrlrs : Nat → Ctrlr Hw
  nrHandlers : Nat → BitVec 64
  ctrlrQue : List Nat
  prioQue : NodeTree Nat
  irqs : Nat → IrqLine
  hw : Hw

/-- `irq_init`. -/
def irqInit
    {Hw : Type}
    (ctrlrs : Nat → Ctrlr Hw)
    (hw : Hw) : CtrlrInfo Hw :=
  { ctrlrs
    nrHandlers := fun _ => 0
    ctrlrQue := []
    prioQue := .leaf
    irqs := fun _ =>
      { refs := 0, prio := 0, attr := 0, handlers := [], ctrlr := none }
    hw }

namespace CtrlrInfo

variable {Hw : Type}

/-- The numbers that the controller at an address serves. -/
def range
    (info : CtrlrInfo Hw)
    (address : Nat) : Finset Nat :=
  Finset.Ico (info.ctrlrs address).minIrq (info.ctrlrs address).maxIrq

/-- Rewrite one line. -/
def setLine
    (info : CtrlrInfo Hw)
    (irq : Nat)
    (line : IrqLine) : CtrlrInfo Hw :=
  { info with irqs := Function.update info.irqs irq line }

end CtrlrInfo

section Controllers

variable {Hw : Type}

/-- The test of `irq_register_ctrlr` on a registered and a new controller. -/
def rangesMeet
    (found ctrlr : Ctrlr Hw) : Prop :=
  (ctrlr.minIrq ≤ found.minIrq ∧ found.minIrq < ctrlr.maxIrq) ∨
    (ctrlr.minIrq < found.maxIrq ∧ found.maxIrq < ctrlr.maxIrq) ∨
    (ctrlr.minIrq ≤ found.minIrq ∧ found.maxIrq < ctrlr.maxIrq) ∨
    (found.minIrq ≤ ctrlr.minIrq ∧ ctrlr.maxIrq < found.maxIrq)

instance
    (found ctrlr : Ctrlr Hw) :
    Decidable (rangesMeet found ctrlr) :=
  inferInstanceAs (Decidable (_ ∨ _ ∨ _ ∨ _))

/-- The end of `irq_register_ctrlr`: initialize the controller and queue it. -/
def queueCtrlr
    (info : CtrlrInfo Hw)
    (address : Nat) : Except Errno Unit × CtrlrInfo Hw :=
  match (info.ctrlrs address).initCtrlr info.hw with
  | .error code => (.error code, info)
  | .ok hw =>
      (.ok (),
        { info with
          nrHandlers := Function.update info.nrHandlers address 0
          ctrlrQue := info.ctrlrQue ++ [address]
          hw })

/-- `irq_register_ctrlr`. -/
def irqRegisterCtrlr
    (info : CtrlrInfo Hw)
    (address : Nat) : Except Errno Unit × CtrlrInfo Hw :=
  if (info.ctrlrs address).opsAreValid = false then
    (.error .einval, info)
  else if address ∈ info.ctrlrQue then
    (.error .ebusy, info)
  else if ∃ found ∈ info.ctrlrQue,
      rangesMeet (info.ctrlrs found) (info.ctrlrs address) then
    (.error .ebusy, info)
  else
    queueCtrlr info address

/-- `irq_unregister_ctrlr`. -/
def irqUnregisterCtrlr
    (info : CtrlrInfo Hw)
    (address : Nat) : CtrlrInfo Hw :=
  if 0 < (info.nrHandlers address).toInt then
    info
  else if address ∈ info.ctrlrQue then
    { info with
      ctrlrQue := info.ctrlrQue.erase address
      hw := (info.ctrlrs address).finalize info.hw }
  else
    info

/-- `queue_find_element` of the controller of a number, with the assertion. -/
def findCtrlr
    (info : CtrlrInfo Hw)
    (irq : Nat) :
    List Nat → Option (Option Nat)
  | [] => some none
  | address :: rest =>
      match irqCtrlrCmpByIrq irq (info.ctrlrs address).toIrqCtrlr with
      | none => none
      | some order =>
          if order = 0 then some (some address)
          else findCtrlr info irq rest

/-- The lookup of `irq_register_handler` among the registered controllers. -/
def lookupCtrlr
    (info : CtrlrInfo Hw)
    (irq : Nat) : Option (Option Nat) :=
  findCtrlr info irq info.ctrlrQue

end Controllers

section Lines

variable {Hw : Type}
variable (rebalancing : Rebalancing Nat)

/-- `irqline_put`: the last reference takes the line out of the tree. -/
def irqlinePut
    (info : CtrlrInfo Hw)
    (irq : Nat) : Option (Bool × CtrlrInfo Hw) :=
  let line := info.irqs irq
  match line.ctrlr, line.refs with
  | none, _ => none
  | some _, 0 => none
  | some address, refs + 1 =>
      let ctrlr := info.ctrlrs address
      if ctrlr.opsAreValid = false then
        none
      else
        let info := info.setLine irq { line with refs }
        if refs ≠ 0 then
          some (false, info)
        else
          let hw :=
            match ctrlr.priMask with
            | none => info.hw
            | some (getPriority, setPriority) =>
                if line.prio > getPriority info.hw then
                  setPriority info.hw line.prio
                else
                  info.hw
          some (true,
            { info with
              prioQue := removeLine rebalancing irq info.prioQue
              hw := ctrlr.disableIrq hw irq })

/-- `RB_INSERT` of a line by the priority it has now. -/
def insertLine
    (info : CtrlrInfo Hw)
    (irq : Nat) : Option (NodeTree Nat) :=
  (info.prioQue.insert
    (fun ent => irqLineCmp (info.irqs irq).prio (info.irqs ent).prio) irq).map
      rebalancing.afterInsert

/-- Add a handler to the queue of a line. -/
def addHandler
    (info : CtrlrInfo Hw)
    (irq handler privateInfo : Nat) : CtrlrInfo Hw :=
  let line := info.irqs irq
  info.setLine irq
    { line with handlers := line.handlers ++ [{ handler, privateInfo }] }

/-- `irq_register_handler`. -/
def irqRegisterHandler
    (info : CtrlrInfo Hw)
    (irq attr prio handler privateInfo : Nat) :
    Option (Except Errno Unit × CtrlrInfo Hw) :=
  if irq ≥ nrIrqs then
    some (.error .einval, info)
  else
    match lookupCtrlr info irq with
    | none => none
    | some none => some (.error .enoent, info)
    | some (some address) =>
        let line := info.irqs irq
        if line.handlers ≠ [] then
          if line.attr &&& irqAttrTriggerMask ≠ attr &&& irqAttrTriggerMask ∨
              line.prio ≠ prio then
            some (.error .einval, info)
          else if line.attr &&& irqAttrExclusive ≠ 0 ∨
              attr &&& irqAttrExclusive ≠ 0 then
            some (.error .ebusy, info)
          else if line.ctrlr = some address then
            some (.ok (), addHandler info irq handler privateInfo)
          else
            none
        else
          match insertLine rebalancing info irq with
          | none => none
          | some prioQue =>
              match (info.ctrlrs address).configIrq info.hw irq attr prio with
              | .error code =>
                  some (.error code,
                    { info with
                      prioQue := removeLine rebalancing irq prioQue })
              | .ok hw =>
                  let line :=
                    { line with attr, prio, ctrlr := some address, refs := 1 }
                  let info := { info with prioQue, hw }
                  -- the controller's count of handlers is not raised
                  some (.ok (),
                    addHandler (info.setLine irq line) irq handler
                      privateInfo)

/-- `irq_unregister_handler`. -/
def irqUnregisterHandler
    (info : CtrlrInfo Hw)
    (irq handler : Nat) :
    Option (Except Errno Unit × CtrlrInfo Hw) :=
  if irq ≥ nrIrqs then
    some (.error .einval, info)
  else
    let line := info.irqs irq
    match line.ctrlr with
    | none => none
    | some address =>
        match line.handlers.find? (·.handler = handler) with
        | none => some (.error .enoent, info)
        | some ent =>
            if (info.ctrlrs address).opsAreValid = false then
              none
            else
              let info :=
                { info.setLine irq
                    { line with handlers := line.handlers.erase ent } with
                  nrHandlers :=
                    Function.update info.nrHandlers address
                      (info.nrHandlers address - 1) }
              if (info.irqs irq).handlers = [] then
                (irqlinePut rebalancing info irq).map fun (_, info) =>
                  (.ok (), info)
              else
                some (.ok (), info)

/-- What the drivers do: they fill in a record, and call the four functions. -/
inductive CtrlrCall (Hw : Type) where
  | fillCtrlr (address : Nat) (ctrlr : Ctrlr Hw)
  | registerCtrlr (address : Nat)
  | unregisterCtrlr (address : Nat)
  | registerHandler (irq attr prio handler privateInfo : Nat)
  | unregisterHandler (irq handler : Nat)

/-- One call; the record of a registered controller is left alone. -/
def ctrlrNext
    (info : CtrlrInfo Hw) :
    CtrlrCall Hw → Option (CtrlrInfo Hw)
  | .fillCtrlr address ctrlr =>
      if address ∈ info.ctrlrQue then none
      else some { info with ctrlrs := Function.update info.ctrlrs address ctrlr }
  | .registerCtrlr address => some (irqRegisterCtrlr info address).2
  | .unregisterCtrlr address => some (irqUnregisterCtrlr info address)
  | .registerHandler irq attr prio handler privateInfo =>
      (irqRegisterHandler rebalancing info irq attr prio handler
        privateInfo).map (·.2)
  | .unregisterHandler irq handler =>
      (irqUnregisterHandler rebalancing info irq handler).map (·.2)

end Lines

end RiscvWorkshop.IrqCtrlrs
