import Mathlib
import RiscvWorkshop.PageFrameBuddy
import RiscvWorkshop.PageTable
import RiscvWorkshop.VmCopy

namespace RiscvWorkshop.Vm

open Pgtbl

/-!
# Mapping pages of an address space

`vm_map_userpage` maps fresh pages, and `vm_copy_range` copies a range from one
address space to another.  Both take clusters of pages from the page pool, map
them with `hal_pgtbl_enter`, and unmap what they mapped when a step fails.  The
state is that of the page table which is changed, with the orders of the
clusters that were handed out.  A call that stops at an assertion has no
result.
-/

/-- A page table, and the page orders that its clusters were handed out with. -/
structure VmState where
  pgtbl : PgtblState
  order : Nat → Nat

/-- The state of a page table before any cluster is handed out. -/
def vmState (pgtbl : PgtblState) : VmState :=
  { pgtbl := pgtbl
    order := fun _ => 0 }

/-- The frames of a cluster. -/
def cluster (pfn order : Nat) : List Nat :=
  List.range' pfn (2 ^ order)

/--
What `pfdb_buddy_dequeue` takes from the free pages: the first frame of a
cluster that is free as a whole.
-/
structure PagePool where
  dequeue : List Nat → Nat → Option Nat
  dequeue_free :
    ∀ {free order pfn},
      dequeue free order = some pfn → cluster pfn order ⊆ free

/-! ## The page allocator -/

/-- `PAGE_ROUNDUP` on 64-bit words. -/
def pageRoundup (address : Nat) : Nat :=
  truncateAlign ((address + (pageSize - 1)) % addressSpace) pageSize

/-- The loop of `pgif_calc_page_order`, by the rounds left. -/
def calcOrderLoop
    (nrPages : Nat) :
    Nat → Nat → Option Nat
  | 0, _ => none
  | rounds + 1, order =>
      if nrPages >>> (order + 1) = 0 then
        let order :=
          if nrPages &&& (1 <<< order - 1) ≠ 0 then order + 1 else order
        if order = Pfdb.pagePoolMaxOrder then none else some order
      else
        calcOrderLoop nrPages rounds (order + 1)

/-- `pgif_calc_page_order`, without a result for `-ESRCH`. -/
def pgifCalcPageOrder (size : Nat) : Option Nat :=
  calcOrderLoop (pageRoundup size >>> pageShift) Pfdb.pagePoolMaxOrder 0

/-- `pgif_get_free_page_cluster`: a cleared cluster, or none for `-ENOMEM`. -/
def pgifGetFreePageCluster
    (pool : PagePool)
    (state : VmState)
    (order : Nat) : Option (Nat × VmState) :=
  (pool.dequeue state.pgtbl.free order).map fun pfn =>
    (pfn,
      { pgtbl :=
          { state.pgtbl with
            mem := fun frame =>
              if frame ∈ cluster pfn order then
                fun _ => 0
              else
                state.pgtbl.mem frame
            usecnt := Function.update state.pgtbl.usecnt pfn 1
            free := state.pgtbl.free.filter (· ∉ cluster pfn order) }
        order := Function.update state.order pfn order })

/-- `pfdb_dec_page_use_count`: the last user returns the cluster. -/
def pfdbDecPageUseCount
    (state : VmState)
    (pfn : Nat) : Option (Bool × VmState) :=
  let new := state.pgtbl.usecnt pfn - 1
  if new < 0 then
    none
  else
    let pgtbl :=
      { state.pgtbl with
        usecnt := Function.update state.pgtbl.usecnt pfn new }
    if new = 0 then
      some
        (true,
          { state with
            pgtbl :=
              { pgtbl with
                free := pgtbl.free ++ cluster pfn (state.order pfn)
                tables := pgtbl.tables.erase pfn } })
    else
      some (false, { state with pgtbl := pgtbl })

/-- On a single page this is the step that page tables take. -/
theorem pfdbDecPageUseCount_order_zero
    {state : VmState}
    {pfn : Nat}
    (single : state.order pfn = 0) :
    pfdbDecPageUseCount state pfn =
      (decPageUseCount state.pgtbl pfn).map fun result =>
        (result.1, { state with pgtbl := result.2 }) := by
  simp only [pfdbDecPageUseCount, decPageUseCount, single]
  split_ifs <;> rfl

/-! ## Unmapping -/

/-- Drop the use count of the cluster that a managed mapping maps. -/
def dropMapped
    (setup : PgtblSetup)
    (state : VmState)
    (unmanaged : Bool) :
    Except Errno Mapping → Option VmState
  | .error _ => some state
  | .ok mapping =>
      if unmanaged then
        some state
      else if setup.isPfnValid (mapping.paddr >>> pageShift) then
        (pfdbDecPageUseCount state (mapping.paddr >>> pageShift)).map Prod.snd
      else
        none

/-- One round of `hal_pgtbl_remove`. -/
def unmapPage
    (setup : PgtblSetup)
    (state : VmState)
    (unmanaged : Bool)
    (vaddr : Nat) : Option VmState :=
  match dropMapped setup state unmanaged
      (halPgtblExtract setup state.pgtbl.mem vaddr) with
  | none => none
  | some state =>
      (removeTableReference setup state.pgtbl vaddr).map fun pgtbl =>
        { state with pgtbl := pgtbl }

/-- The loop of `hal_pgtbl_remove`; the first argument bounds the rounds. -/
def unmapLoop
    (setup : PgtblSetup)
    (unmanaged : Bool)
    (vaddrEnd : Nat) :
    Nat → Nat → Nat → VmState → Option VmState
  | 0, _, _, _ => none
  | rounds + 1, curVaddr, pgsize, state =>
      if vaddrEnd > curVaddr then
        match unmapPage setup state unmanaged curVaddr with
        | none => none
        | some after =>
            let pgsize :=
              pgsizeAfter pgsize
                (halPgtblExtract setup state.pgtbl.mem curVaddr)
            unmapLoop setup unmanaged vaddrEnd rounds
              ((curVaddr + pgsize) % addressSpace) pgsize after
      else
        some state

/-- `hal_pgtbl_remove`, where the last user of a page returns its cluster. -/
def vmPgtblRemove
    (setup : PgtblSetup)
    (state : VmState)
    (vaddr flags len : Nat) : Option VmState :=
  let vaddrEnd := (vaddr + len) % addressSpace
  if aligned vaddr pageSize && aligned vaddrEnd pageSize then
    unmapLoop setup (flags &&& vmFlagsUnmanaged != 0) vaddrEnd removeRounds
      vaddr pageSize state
  else
    some state

/--
The loop of `vm_unmap_common`; the first argument bounds the rounds.  The
locals for the attributes and the size of a page keep their values when
nothing is found and errors are ignored.
-/
def vmUnmapLoop
    (setup : PgtblSetup)
    (flags : Nat)
    (force : Bool)
    (endVaddr : Nat) :
    Nat → Nat → Nat → Nat → VmState → Option (Except Errno Unit × VmState)
  | 0, _, _, _, _ => none
  | rounds + 1, mapFlags, mapPgsize, curVaddr, state =>
      if endVaddr > curVaddr then
        let extracted := halPgtblExtract setup state.pgtbl.mem curVaddr
        let found :=
          match extracted with
          | .ok mapping => (mapping.flags, mapping.pgsize)
          | .error _ => (mapFlags, mapPgsize)
        match extracted, force with
        | .error code, false => some (.error code, state)
        | _, _ =>
            match vmPgtblRemove setup state curVaddr (flags ||| found.1)
                found.2 with
            | none => none
            | some state =>
                vmUnmapLoop setup flags force endVaddr rounds found.1 found.2
                  ((curVaddr + found.2) % addressSpace) state
      else
        some (.ok (), state)

/-- What the uninitialised locals of `vm_unmap_common` hold. -/
structure UnmapLocals where
  mapFlags : Nat
  mapPgsize : Nat

/-- `vm_unmap_common`. -/
def vmUnmapCommon
    (setup : PgtblSetup)
    (locals : UnmapLocals)
    (rounds : Nat)
    (state : VmState)
    (vaddr flags size : Nat)
    (force : Bool) : Option (Except Errno Unit × VmState) :=
  vmUnmapLoop setup flags force (pageRoundup ((vaddr + size) % addressSpace))
    rounds locals.mapFlags locals.mapPgsize (truncateAlign vaddr pageSize) state

/-! ## Mapping -/

/-- `addr_not_aligned`. -/
def addrNotAligned (address size : Nat) : Bool :=
  address &&& ((size + (addressSpace - 1)) % addressSpace) != 0

/-- `vm_map_common`. -/
def vmMapCommon
    (setup : PgtblSetup)
    (pool : PagePool)
    (state : VmState)
    (vaddr prot flags pgsize : Nat) : Option (Except Errno Unit × VmState) :=
  if addrNotAligned vaddr pgsize then
    none
  else
    match pgifCalcPageOrder pgsize with
    | none => some (.error .esrch, state)
    | some order =>
        match pgifGetFreePageCluster pool state order with
        | none => some (.error .enomem, state)
        | some (pfn, state) =>
            match halPgtblEnter setup state.pgtbl
                { vaddr := vaddr
                  paddr := pfn <<< pageShift
                  prot := prot
                  flags := flags
                  len := pgsize } with
            | none => none
            | some (.error code, pgtbl) =>
                some (.error code, { state with pgtbl := pgtbl })
            | some (.ok (), pgtbl) =>
                if pgtbl.usecnt pfn > 0 then
                  some (.ok (), { state with pgtbl := pgtbl })
                else
                  none

/--
The loop of `vm_map_userpage`, with the address at which it ended.  The first
argument bounds the rounds.
-/
def vmMapLoop
    (setup : PgtblSetup)
    (pool : PagePool)
    (prot flags pgsize endVaddr : Nat) :
    Nat → Nat → VmState → Option (Except Errno Unit × Nat × VmState)
  | 0, _, _ => none
  | rounds + 1, mapVaddr, state =>
      if endVaddr > mapVaddr then
        match vmMapCommon setup pool state mapVaddr prot flags pgsize with
        | none => none
        | some (.error code, state) => some (.error code, mapVaddr, state)
        | some (.ok (), state) =>
            vmMapLoop setup pool prot flags pgsize endVaddr rounds
              ((mapVaddr + pgsize) % addressSpace) state
      else
        some (.ok (), mapVaddr, state)

/-- The attributes that `vm_map_userpage` may not be asked for. -/
def notUserFlags : Nat :=
  vmFlagsUnmanaged ||| vmFlagsSupervisor

/--
`vm_map_userpage`, with what the lock call on the mutex ends with, and a bound
on the rounds of its loops.
-/
def vmMapUserpage
    (setup : PgtblSetup)
    (pool : PagePool)
    (locals : UnmapLocals)
    (locked : Except Errno Unit)
    (rounds : Nat)
    (state : VmState)
    (vaddr prot flags pgsize size : Nat) :
    Option (Except Errno Unit × VmState) :=
  if flags &&& notUserFlags ≠ 0 then
    none
  else
    let staVaddr := truncateAlign vaddr pageSize
    let endVaddr := pageRoundup ((vaddr + size) % addressSpace)
    if endVaddr < staVaddr then
      some (.error .einval, state)
    else
      match locked with
      | .error code => some (.error code, state)
      | .ok () =>
          match vmMapLoop setup pool prot
              (flags ^^^ (flags &&& notUserFlags)) pgsize endVaddr rounds
              staVaddr state with
          | none => none
          | some (.ok (), _, state) => some (.ok (), state)
          | some (.error code, mapVaddr, state) =>
              (vmUnmapCommon setup locals rounds state staVaddr flags
                ((mapVaddr + (addressSpace - staVaddr)) % addressSpace)
                true).map fun after =>
                  (.error code, after.2)

end RiscvWorkshop.Vm
