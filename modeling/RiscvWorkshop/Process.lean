import Mathlib
import RiscvWorkshop.Run
import RiscvWorkshop.KernelBase

namespace RiscvWorkshop.Process

/-!
# Processes and their threads

User processes, the threads on their queues and the database of processes.
A process or a thread is known by the address of its object.  Each process
carries a number of its own, as objects are used again, and the references
that were handed out to callers; what its end releases is recorded.
-/

/-- `PROC_SEG_NR`. -/
def procSegNr : Nat := 5

/-- What a process takes up until its end. -/
inductive Resource where
  | segment (index : Nat)
  | pageTable
  | pid
  | object
deriving Repr, DecidableEq

/-- `proc`, with its own number and the references handed out. -/
structure Proc where
  refs : Nat
  thrque : List Nat
  master : Nat
  id : Nat
  serial : Nat
  handed : Nat
deriving Repr, DecidableEq

/--
The objects of `proc_cache` in use, the tree of `proc_db` by numbers, the
process pointer `p` and the references of each thread object, and the record
of what was released.
-/
structure ProcSystem where
  procs : Nat → Option Proc
  head : List (Nat × Nat)
  threadProc : Nat → Nat
  threadRefs : Nat → Nat
  nextSerial : Nat
  released : List (Nat × Resource)

/-- `proc_init`, with thread objects as they are found. -/
def procInit (threadProc threadRefs : Nat → Nat) : ProcSystem where
  procs := fun _ => none
  head := []
  threadProc := threadProc
  threadRefs := threadRefs
  nextSerial := 0
  released := []

/--
What `proc_user_allocate` gets: the error of the first thing that it cannot
have, or a process object, a process number and the object of a new thread.
-/
inductive Provision where
  | failed (code : Errno)
  | all (object pid thr : Nat)
deriving Repr, DecidableEq

/-- What the end of a process releases, in the order of `free_user_process`. -/
def allResources : List Resource :=
  (List.range procSegNr).map .segment ++ [.pageTable, .pid, .object]

namespace ProcSystem

/-- Rewrite one process. -/
def setProc
    (sys : ProcSystem)
    (addr : Nat)
    (p : Proc) : ProcSystem :=
  { sys with procs := Function.update sys.procs addr (some p) }

/-- A thread on the queue of a process of the database. -/
def Attached (sys : ProcSystem) (thr : Nat) : Prop :=
  ∃ entry ∈ sys.head, ∃ p ∈ sys.procs entry.2, thr ∈ p.thrque

instance (sys : ProcSystem) (thr : Nat) : Decidable (sys.Attached thr) :=
  inferInstanceAs (Decidable (∃ entry ∈ _, ∃ p ∈ _, _))

/-- `free_user_process`. -/
def freeUserProcess
    (sys : ProcSystem)
    (addr : Nat)
    (p : Proc) : ProcSystem :=
  { sys with
    procs := Function.update sys.procs addr none
    released := sys.released ++ allResources.map fun what => (p.serial, what) }

/-- `proc_ref_inc`: no reference to a process that is at its end. -/
def procRefInc
    (sys : ProcSystem)
    (addr : Nat) : Option (Bool × ProcSystem) :=
  match sys.procs addr with
  | none => none
  | some p =>
      if p.refs = 0 then
        some (false, sys)
      else
        some (true, sys.setProc addr { p with refs := p.refs + 1 })

/-- `proc_ref_dec`: the last reference ends the process. -/
def procRefDec
    (sys : ProcSystem)
    (addr : Nat) : Option (Bool × ProcSystem) :=
  match sys.procs addr with
  | none => none
  | some p =>
      match p.refs with
      | 0 => none
      | refs + 1 =>
          if refs ≠ 0 then
            some (false, sys.setProc addr { p with refs })
          else if p.thrque = [] ∧ (p.id, addr) ∈ sys.head then
            some (true,
              { sys with head := sys.head.erase (p.id, addr) }.freeUserProcess
                addr p)
          else
            none

/-- `proc_user_allocate`: the first thread is queued, and `p` is left as it was. -/
def procUserAllocate
    (sys : ProcSystem) :
    Provision → Option (Except Errno Nat × ProcSystem)
  | .failed code => some (.error code, sys)
  | .all addr pid thr =>
      if sys.head.any (·.1 = pid) then
        none
      else
        let p : Proc :=
          { refs := 1
            thrque := [thr]
            master := thr
            id := pid
            serial := sys.nextSerial
            handed := 0 }
        some (.ok addr,
          { sys.setProc addr p with
            head := (pid, addr) :: sys.head
            nextSerial := sys.nextSerial + 1 })

/-- `proc_add_thread`. -/
def procAddThread
    (sys : ProcSystem)
    (addr thr : Nat) : Option (Except Errno Unit × ProcSystem) :=
  match sys.procRefInc addr with
  | none => none
  | some (false, sys) => some (.error .enoent, sys)
  | some (true, sys) =>
      match sys.procs addr with
      | none => none
      | some p =>
          some (.ok (),
            { sys.setProc addr { p with thrque := p.thrque ++ [thr] } with
              threadProc := Function.update sys.threadProc thr addr })

/-- `RB_FIND` of a process by its number. -/
def findProc (sys : ProcSystem) (target : Nat) : Option Nat :=
  (sys.head.find? (·.1 = target)).map (·.2)

/--
The master after a thread has left the queue.  The process is read through
the thread's own pointer.
-/
def newMaster
    (sys : ProcSystem)
    (p : Proc)
    (thr : Nat) : Option Nat :=
  if p.thrque = [] then
    some p.master
  else
    match sys.procs (sys.threadProc thr) with
    | none => none
    | some own =>
        if thr = own.master then own.thrque.head? else some p.master

/-- `proc_del_thread`. -/
def procDelThread
    (sys : ProcSystem)
    (addr thr : Nat) : Option (Bool × ProcSystem) :=
  match sys.procRefInc addr with
  | some (true, sys) =>
      match sys.procs addr with
      | none => none
      | some p =>
          let sys := sys.setProc addr { p with thrque := p.thrque.erase thr }
          match sys.procRefDec addr with
          | some (false, sys) =>
              match sys.procs addr with
              | none => none
              | some p =>
                  match sys.newMaster p thr with
                  | none => none
                  | some master =>
                      (sys.setProc addr { p with master }).procRefDec addr
          | _ => none
  | _ => none

/-- `proc_find_by_pid`. -/
def procFindByPid
    (sys : ProcSystem)
    (target : Nat) : Option (Option Nat × ProcSystem) :=
  match sys.findProc target with
  | none => some (none, sys)
  | some addr => (sys.procRefInc addr).map fun (_, sys) => (some addr, sys)

/-- `proc_find_thread`, with its assertions. -/
def procFindThread
    (sys : ProcSystem)
    (target : Nat) : Option (Option Nat × ProcSystem) :=
  match sys.findProc target with
  | none => some (none, sys)
  | some addr =>
      match sys.procRefInc addr with
      | some (true, sys) =>
          match sys.procs addr with
          | none => none
          | some p =>
              if sys.threadRefs p.master = 0 then
                none
              else
                let sys :=
                  { sys with
                    threadRefs :=
                      Function.update sys.threadRefs p.master
                        (sys.threadRefs p.master + 1) }
                match sys.procRefDec addr with
                | some (false, sys) => some (some p.master, sys)
                | _ => none
      | _ => none

/-- Count references that a caller got or gave back. -/
def hand
    (change : Nat → Nat)
    (addr : Nat)
    (sys : ProcSystem) : ProcSystem :=
  match sys.procs addr with
  | none => sys
  | some p => sys.setProc addr { p with handed := change p.handed }

end ProcSystem

/--
The calls of a run.  References of threads change with the life of the threads
too.
-/
inductive ProcCall where
  | userAllocate (provision : Provision)
  | addThread (addr thr : Nat)
  | delThread (addr thr : Nat)
  | findByPid (target : Nat)
  | findThread (target : Nat)
  | refInc (addr : Nat)
  | refDec (addr : Nat)
  | threadRefs (thr refs : Nat)
deriving Repr, DecidableEq

namespace ProcSystem

/--
What callers see to: objects that are given out are not in use, a thread that
is added is on no queue, one that is deleted is on the queue of its process,
and a reference that is given back was handed out.
-/
def Permitted (sys : ProcSystem) : ProcCall → Prop
  | .userAllocate (.failed _) => True
  | .userAllocate (.all addr _ thr) =>
      sys.procs addr = none ∧ ¬ sys.Attached thr
  | .addThread _ thr => ¬ sys.Attached thr
  | .delThread addr thr => ∃ p ∈ sys.procs addr, thr ∈ p.thrque
  | .findByPid _ => True
  | .findThread _ => True
  | .refInc _ => True
  | .refDec addr => ∃ p ∈ sys.procs addr, 0 < p.handed
  | .threadRefs _ _ => True

instance (sys : ProcSystem) : ∀ call, Decidable (sys.Permitted call)
  | .userAllocate (.failed _) => inferInstanceAs (Decidable True)
  | .userAllocate (.all _ _ _) => inferInstanceAs (Decidable (_ ∧ ¬ _))
  | .addThread _ _ => inferInstanceAs (Decidable (¬ _))
  | .delThread _ _ => inferInstanceAs (Decidable (∃ p ∈ _, _))
  | .findByPid _ => inferInstanceAs (Decidable True)
  | .findThread _ => inferInstanceAs (Decidable True)
  | .refInc _ => inferInstanceAs (Decidable True)
  | .refDec _ => inferInstanceAs (Decidable (∃ p ∈ _, _))
  | .threadRefs _ _ => inferInstanceAs (Decidable True)

end ProcSystem

/-- One call. -/
def procCall (sys : ProcSystem) : ProcCall → Option ProcSystem
  | .userAllocate provision => (sys.procUserAllocate provision).map (·.2)
  | .addThread addr thr => (sys.procAddThread addr thr).map (·.2)
  | .delThread addr thr => (sys.procDelThread addr thr).map (·.2)
  | .findByPid target =>
      match sys.procFindByPid target with
      | none => none
      | some (none, sys) => some sys
      | some (some addr, sys) => some (sys.hand (· + 1) addr)
  | .findThread target => (sys.procFindThread target).map (·.2)
  | .refInc addr =>
      match sys.procRefInc addr with
      | none => none
      | some (false, sys) => some sys
      | some (true, sys) => some (sys.hand (· + 1) addr)
  | .refDec addr =>
      ((sys.hand (· - 1) addr).procRefDec addr).map (·.2)
  | .threadRefs thr refs =>
      some
        { sys with threadRefs := Function.update sys.threadRefs thr refs }

/-- One call that its caller may make. -/
def procNext : ProcSystem → ProcCall → Option ProcSystem :=
  guardNext ProcSystem.Permitted procCall

end RiscvWorkshop.Process
