import Mathlib
import RiscvWorkshop.Process
import RiscvWorkshop.ThreadIdRuns
import RiscvWorkshop.VmHeldPages

namespace RiscvWorkshop.Process

open Pgtbl Vm ThreadId

/-!
# The creation of a user process, and what it gives back when it fails

`proc_user_allocate` takes a process record, a process number, a page table, a
page for the stack and a thread, one after the other.  A step that fails jumps
to the label that gives back what was taken before it.  The labels from the
page table on go through `free_id_out`, which reads the number to release
from a thread pointer that no failing step has set.
-/

/-- `HAL_USER_END_ADDR`. -/
def halUserEndAddr : Nat := 0x3FFFFFFFFF

/-- `VM_FLAGS_USER`. -/
def vmFlagsUser : Nat := 0

/-- `SCHED_MIN_USER_PRIO`. -/
def schedMinUserPrio : Nat := 255

/-- `proc_segment`. -/
structure ProcSegment where
  start : Nat
  stop : Nat
  prot : Nat
  flags : Nat
deriving Repr, DecidableEq

/-- The stack segment of a user process. -/
def stackSegment : ProcSegment where
  start := truncateAlign halUserEndAddr pageSize
  stop := pageRoundup halUserEndAddr
  prot := vmProtRead ||| vmProtWrite ||| vmProtExecute
  flags := vmFlagsUser

/-- What the kernel is built and booted with. -/
structure KernelSetup where
  /-- the base table of the kernel, which every page table copies -/
  kernelBase : Nat
  /-- `KC_KSTACK_ORDER` -/
  kstackOrder : Nat
  /-- the page frames that the page frame database knows -/
  isPfnValid : Nat → Bool
  /-- how the page pool chooses a free cluster -/
  pool : PagePool

/--
The processes, the numbers and threads, the page frames, and the objects that
the caches of process records, page tables and threads have to give.  The
counters of `pages` for one page table are those of the table in hand.
-/
structure AllocState where
  sys : ProcSystem
  db : ThreadDb
  pages : VmState
  procCache : List Nat
  pgtblCache : List Nat
  thrCache : List Nat
  /-- the resource count of the mutex of the kernel's page table -/
  kernelMtx : Nat

/--
What the call meets: what its lock calls end with, and what its locals hold
that it reads before it has written them.
-/
structure AllocWorld where
  /-- `mutex_lock` of the kernel's page table -/
  kernelLocked : Except Errno Unit
  /-- `mutex_lock` of the new page table in `vm_map_userpage` -/
  locked : Except Errno Unit
  /-- the locals of `vm_unmap_common` -/
  locals : UnmapLocals
  /-- `rm_pgsize` of `release_process_segment` -/
  rmPgsize : Nat
  /-- the number in the object to which `thr` happens to point -/
  thrId : Nat

/-- The rounds that the loops of a call are given: one for every page. -/
def allPages : Nat := removeRounds

namespace AllocState

variable (kernel : KernelSetup)
variable (world : AllocWorld)

/-- `allocate_process_common`. -/
def allocateProcessCommon
    (state : AllocState) : Except Errno Nat × AllocState :=
  match state.procCache with
  | [] => (.error .enomem, state)
  | addr :: rest =>
      (.ok addr,
        { state with
          procCache := rest
          sys :=
            state.sys.setProc addr
              { refs := 1
                thrque := []
                master := 0
                id := 0
                serial := state.sys.nextSerial
                handed := 0 } })

/-- `slab_kmem_cache_free` of a process record. -/
def freeProc
    (addr : Nat)
    (state : AllocState) : AllocState :=
  { state with
    procCache := addr :: state.procCache
    sys :=
      { state.sys with procs := Function.update state.sys.procs addr none } }

/-- `thr_id_release`, whatever the number. -/
def releaseId
    (id : Nat)
    (state : AllocState) : AllocState :=
  { state with
    db :=
      { state.db with procIds := state.db.procIds.erase id }.releaseTidNolock
        id }

/-- The page table with a base: the slots filled by the kernel are not its own. -/
def tableOf
    (base : Nat)
    (state : AllocState) : PgtblSetup where
  base
  inherited := fun idx =>
    pteIsValid (state.pages.pgtbl.mem kernel.kernelBase idx)
  kernelTables := []
  isPfnValid := kernel.isPfnValid

/-- The page table in hand has no pages. -/
def withNoTable (state : AllocState) : AllocState :=
  { state with
    pages :=
      { state.pages with
        pgtbl :=
          { state.pages.pgtbl with nrPages := 0, tables := [], visited := [] } } }

/-- `pgtbl_alloc_pgtbl`; without memory the kernel stops. -/
def pgtblAllocPgtbl
    (state : AllocState) : Option ((Nat × Nat) × AllocState) :=
  match state.pgtblCache with
  | [] => none
  | pgt :: rest =>
      (pgtblAllocPgtblPage state.withNoTable.pages.pgtbl).map
        fun (base, pgtbl) =>
          ((pgt, base),
            { state with
              pgtblCache := rest
              pages := { state.pages with pgtbl } })

/-- `hal_copy_kernel_pgtbl`: the mutex is released even when it was not taken. -/
def halCopyKernelPgtbl
    (base : Nat)
    (state : AllocState) : Except Errno Unit × AllocState :=
  match world.kernelLocked with
  | .error code => (.error code, { state with kernelMtx := state.kernelMtx + 1 })
  | .ok () =>
      (.ok (),
        { state with
          pages :=
            { state.pages with
              pgtbl :=
                { state.pages.pgtbl with
                  mem :=
                    Function.update state.pages.pgtbl.mem base
                      (state.pages.pgtbl.mem kernel.kernelBase) } } })

/-- `pgtbl_alloc_user_pgtbl`: on an error the table is not given back. -/
def pgtblAllocUserPgtbl
    (state : AllocState) : Option (Except Errno (Nat × Nat) × AllocState) :=
  match state.pgtblAllocPgtbl with
  | none => none
  | some ((pgt, base), state) =>
      match halCopyKernelPgtbl kernel world base state with
      | (.error code, state) => some (.error code, state)
      | (.ok (), state) => some (.ok (pgt, base), state)

/-- `pgtbl_free_user_pgtbl`, with its assertion that only the base is left. -/
def pgtblFreeUserPgtbl
    (pgt base : Nat)
    (state : AllocState) : Option AllocState :=
  if state.pages.pgtbl.nrPages = 1 then
    (decPageUseCount state.pages.pgtbl base).map fun (_, pgtbl) =>
      { state with
        pgtblCache := pgt :: state.pgtblCache
        pages := { state.pages with pgtbl } }
  else
    none

/-- `vm_map_userpage` of the stack segment. -/
def mapStack
    (table : PgtblSetup)
    (state : AllocState) : Option (Except Errno Unit × AllocState) :=
  (vmMapUserpage table kernel.pool world.locals world.locked allPages
    state.pages stackSegment.start stackSegment.prot stackSegment.flags
    pageSize (stackSegment.stop - stackSegment.start)).map
      fun (result, pages) => (result, { state with pages })

/-- `release_process_segment` of the stack segment. -/
def releaseStack
    (table : PgtblSetup)
    (state : AllocState) : Option AllocState :=
  (releaseProcessSegment table world.locals world.rmPgsize (.ok ()) allPages
    state.pages stackSegment.start stackSegment.stop stackSegment.flags).map
      fun pages => { state with pages }

/-- `thr_thread_create` of the first thread, by `create_thread_common`. -/
def threadCreate
    (state : AllocState) : Option (Except Errno Nat × AllocState) :=
  match state.thrCache with
  | [] => some (.error .enomem, state)
  | thr :: rest =>
      match pgifGetFreePageCluster kernel.pool state.pages kernel.kstackOrder with
      | none => some (.error .enomem, state)
      | some (stack, pages) =>
          match state.db.createThreadCommon thrTidAuto false schedMinUserPrio
              thrThrflagsUser ⟨true, true⟩ with
          | none => none
          | some (.error code, db) =>
              (pfdbDecPageUseCount pages stack).map fun (_, pages) =>
                (.error code, { state with db, pages })
          | some (.ok _, db) =>
              some (.ok thr, { state with db, pages, thrCache := rest })

/-! ## The labels -/

/-- `free_proc_out`. -/
def freeProcOut
    (addr : Nat)
    (state : AllocState) : AllocState :=
  state.freeProc addr

/-- `free_id_out`: the number is read through `thr`. -/
def freeIdOut
    (addr : Nat)
    (state : AllocState) : AllocState :=
  (state.releaseId world.thrId).freeProcOut addr

/-- `free_pgtbl_out`. -/
def freePgtblOut
    (addr pgt base : Nat)
    (state : AllocState) : Option AllocState :=
  (state.pgtblFreeUserPgtbl pgt base).map (freeIdOut world addr)

/-- `free_stk_out`. -/
def freeStkOut
    (table : PgtblSetup)
    (addr pgt base : Nat)
    (state : AllocState) : Option AllocState :=
  (releaseStack world table state).bind (freePgtblOut world addr pgt base)

/-- The end of a creation that has everything; the number must be a new one. -/
def enterProcess
    (addr thr : Nat)
    (state : AllocState) : Option (Except Errno Nat × AllocState) :=
  match state.sys.procs addr with
  | none => none
  | some p =>
      if state.sys.head.any (·.1 = p.id) then
        none
      else
        some (.ok addr,
          { state with
            sys :=
              { state.sys.setProc addr
                  { p with thrque := p.thrque ++ [thr], master := thr } with
                head := (p.id, addr) :: state.sys.head
                nextSerial := state.sys.nextSerial + 1 } })

/-- The number of a process is set in its record. -/
def setPid
    (addr pid : Nat)
    (state : AllocState) : AllocState :=
  { state with
    sys :=
      match state.sys.procs addr with
      | none => state.sys
      | some p => state.sys.setProc addr { p with id := pid } }

/-- `proc_user_allocate` from the page table on. -/
def buildProcess
    (addr : Nat)
    (state : AllocState) : Option (Except Errno Nat × AllocState) :=
  match pgtblAllocUserPgtbl kernel world state with
  | none => none
  | some (.error code, state) =>
      some (.error code, state.freeIdOut world addr)
  | some (.ok (pgt, base), state) =>
      let table := tableOf kernel base state
      match mapStack kernel world table state with
      | none => none
      | some (.error code, state) =>
          (state.freePgtblOut world addr pgt base).map fun state =>
            (.error code, state)
      | some (.ok (), state) =>
          match threadCreate kernel state with
          | none => none
          | some (.error code, state) =>
              (state.freeStkOut world table addr pgt base).map fun state =>
                (.error code, state)
          | some (.ok thr, state) => state.enterProcess addr thr

/-- `proc_user_allocate`. -/
def procUserAllocate
    (state : AllocState) : Option (Except Errno Nat × AllocState) :=
  match state.allocateProcessCommon with
  | (.error code, state) => some (.error code, state)
  | (.ok addr, state) =>
      match state.db.thrIdAlloc with
      | (.error code, db) =>
          some (.error code, { state with db }.freeProcOut addr)
      | (.ok pid, db) =>
          buildProcess kernel world addr ({ state with db }.setPid addr pid)

end AllocState

end RiscvWorkshop.Process
