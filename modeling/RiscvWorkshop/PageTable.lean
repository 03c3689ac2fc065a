import Mathlib
import RiscvWorkshop.Run
import RiscvWorkshop.PageTableEntry

namespace RiscvWorkshop.Pgtbl

/-!
# The page table code on physical pages

Tables are physical pages named by their page frame number.  The state holds
their contents, the use counts of page frames, the free pages of the page
allocator, and two records that the code does not keep: which pages are tables
obtained from `pgtbl_alloc_pgtbl_page`, and which pages the writer `grow_pgtbl`
and the reader `walk_pgtbl` have used as a table.
-/

/-- `RV64_PGTBL_LVL_NR`: the levels of Sv39. -/
def pgtblLvlNr : Nat := 3

/-- The entries of a table. -/
def pgtblEntriesNr : Nat := 512

/-- `rv64_pgtbl_vpn_lvl_to_indexshift`. -/
def pgtblIndexShift (lvl : Nat) : Nat :=
  39 - (pgtblLvlNr - lvl) * 9

/-- `rv64_pgtbl_calc_index_val`. -/
def pgtblCalcIndexVal (vaddr lvl : Nat) : Nat :=
  (vaddr >>> pgtblIndexShift lvl) &&& (pgtblEntriesNr - 1)

/-- `rv64_pgtbl_calc_pagesize`. -/
def pgtblCalcPagesize (lvl : Nat) : Nat :=
  1 <<< pgtblIndexShift lvl

/-- What stays fixed while one page table is used. -/
structure PgtblSetup where
  /-- the page of the VPN2 table -/
  base : Nat
  /-- the slots of the base that `hal_copy_kernel_pgtbl` filled -/
  inherited : Nat → Bool
  /-- the kernel's tables below these slots -/
  kernelTables : List Nat
  /-- the page frames that the page frame database knows -/
  isPfnValid : Nat → Bool

structure PgtblState where
  mem : Nat → Nat → Nat
  usecnt : Nat → Int
  free : List Nat
  nrPages : Int
  tables : List Nat
  visited : List (Nat × Bool)

namespace PgtblState

/-- Write one entry of a table. -/
def writePte (state : PgtblState) (table idx pte : Nat) : PgtblState :=
  { state with
    mem := Function.update state.mem table
      (Function.update (state.mem table) idx pte) }

/-- Record that a page is used as a table, and whether it is one. -/
def visit (state : PgtblState) (table : Nat) : PgtblState :=
  { state with
    visited := (table, decide (table ∈ state.tables)) :: state.visited }

end PgtblState

/-- `pfdb_inc_page_use_count` under the assertion that it succeeds. -/
def incPageUseCount (state : PgtblState) (pfn : Nat) : Option PgtblState :=
  if state.usecnt pfn = 0 then
    none
  else
    some
      { state with
        usecnt := Function.update state.usecnt pfn (state.usecnt pfn + 1) }

/--
`pfdb_dec_page_use_count`: the last user returns the page to the allocator, and
the page then belongs to no page table.
-/
def decPageUseCount
    (state : PgtblState)
    (pfn : Nat) : Option (Bool × PgtblState) :=
  let new := state.usecnt pfn - 1
  if new < 0 then
    none
  else
    let state := { state with usecnt := Function.update state.usecnt pfn new }
    if new = 0 then
      some
        (true,
          { state with
            free := state.free ++ [pfn]
            tables := state.tables.erase pfn })
    else
      some (false, state)

/-- `pgtbl_alloc_pgtbl_page`: a cleared page with one user, or no memory. -/
def pgtblAllocPgtblPage (state : PgtblState) : Option (Nat × PgtblState) :=
  match state.free with
  | [] => none
  | pfn :: rest =>
      some
        (pfn,
          { state with
            mem := Function.update state.mem pfn fun _ => 0
            usecnt := Function.update state.usecnt pfn 1
            free := rest
            nrPages := state.nrPages + 1
            tables := pfn :: state.tables })

/-! ## The reader -/

/-- The description of a mapped page that `hal_pgtbl_extract` returns. -/
structure Mapping where
  paddr : Nat
  prot : Nat
  flags : Nat
  pgsize : Nat
deriving Repr, DecidableEq

/-- What one level of the walk finds. -/
inductive WalkStep where
  | unmapped
  | mapped (mapping : Mapping)
  | next (table : Nat)
deriving Repr, DecidableEq

/-- The page that an entry of a level maps. -/
def mappingOf (pte lvl : Nat) : Mapping :=
  { paddr := pteToPaddr pte
    prot := (pteToVmprotAndVmflags pte).1
    flags := (pteToVmprotAndVmflags pte).2
    pgsize := pgtblCalcPagesize lvl }

/-- `walk_pgtbl`. -/
def walkPgtbl (mem : Nat → Nat → Nat) (table lvl vaddr : Nat) : WalkStep :=
  let pte := mem table (pgtblCalcIndexVal vaddr lvl)
  if pteIsValid pte then
    if pteIsLeaf pte then
      .mapped (mappingOf pte lvl)
    else
      .next (pteToPfn pte)
  else
    .unmapped

/-- The loop of `hal_pgtbl_extract`, by the levels left. -/
def extractLoop
    (mem : Nat → Nat → Nat)
    (vaddr : Nat) :
    Nat → Nat → Except Errno Mapping
  | 0, _ => .error .eagain
  | lvl + 1, table =>
      match walkPgtbl mem table lvl vaddr with
      | .unmapped => .error .enoent
      | .mapped mapping => .ok mapping
      | .next below => extractLoop mem vaddr lvl below

/-- `hal_pgtbl_extract`. -/
def halPgtblExtract
    (setup : PgtblSetup)
    (mem : Nat → Nat → Nat)
    (vaddr : Nat) : Except Errno Mapping :=
  extractLoop mem vaddr pgtblLvlNr setup.base

/-- The tables that the loop of `hal_pgtbl_extract` hands to `walk_pgtbl`. -/
def extractTrail
    (mem : Nat → Nat → Nat)
    (vaddr : Nat) :
    Nat → Nat → List Nat
  | 0, _ => []
  | lvl + 1, table =>
      match walkPgtbl mem table lvl vaddr with
      | .next below => table :: extractTrail mem vaddr lvl below
      | _ => [table]

/-! ## The writer -/

/-- A request to map pages. -/
structure MapRequest where
  vaddr : Nat
  paddr : Nat
  prot : Nat
  flags : Nat
  len : Nat
deriving Repr, DecidableEq

/-- How `grow_pgtbl` ends at one level. -/
inductive GrowStep where
  | busy
  | noMemory
  | mapped
  | next (table : Nat)
deriving Repr, DecidableEq

/-- `grow_pgtbl`. -/
def growPgtbl
    (setup : PgtblSetup)
    (state : PgtblState)
    (table lvl vaddr paddr prot flags pgsize : Nat) :
    Option (GrowStep × PgtblState) :=
  let idx := pgtblCalcIndexVal vaddr lvl
  let curPte := state.mem table idx
  let state := state.visit table
  if setup.isPfnValid table then
    if pteIsValid curPte then
      if pgtblCalcPagesize lvl = pgsize then
        some (.busy, state)
      else
        some (.next (pteToPfn curPte), state)
    else if pgtblCalcPagesize lvl = pgsize then
      (incPageUseCount (state.writePte table idx (leafPte prot flags paddr))
        table).map fun state => (.mapped, state)
    else
      match pgtblAllocPgtblPage state with
      | none => some (.noMemory, state)
      | some (newTbl, state) =>
          (incPageUseCount state table).map fun state =>
            (.next newTbl,
              state.writePte table idx (tablePte (newTbl <<< pageShift)))
  else
    none

/-- The loop of `map_vaddr_to_paddr`, by the levels left. -/
def mapLoop
    (setup : PgtblSetup)
    (vaddr paddr prot flags pgsize : Nat) :
    Nat → Nat → PgtblState → Option (Except Errno Unit × PgtblState)
  | 0, _, state => some (.ok (), state)
  | lvl + 1, table, state =>
      match growPgtbl setup state table lvl vaddr paddr prot flags pgsize with
      | none => none
      | some (.busy, state) => some (.error .ebusy, state)
      | some (.noMemory, state) => some (.error .enomem, state)
      | some (.mapped, state) => some (.ok (), state)
      | some (.next below, state) =>
          mapLoop setup vaddr paddr prot flags pgsize lvl below state

/--
The first loop of `remove_table_reference`: the tables on the way to the leaf,
lowest first, with their levels.  An invalid entry stops the kernel.
-/
def collectTables
    (mem : Nat → Nat → Nat)
    (vaddr : Nat) :
    Nat → Nat → List (Nat × Nat) → Option (List (Nat × Nat))
  | 0, _, _ => none
  | lvl + 1, table, upper =>
      let pte := mem table (pgtblCalcIndexVal vaddr lvl)
      if pteIsValid pte then
        if lvl = 0 ∨ pteIsLeaf pte then
          some ((lvl, table) :: upper)
        else
          collectTables mem vaddr lvl (pteToPfn pte) ((lvl, table) :: upper)
      else
        none

/-- Free the table that the entry just cleared referred to. -/
def freeLowTable
    (setup : PgtblSetup)
    (state : PgtblState)
    (low : Nat) : Option PgtblState :=
  if setup.isPfnValid low then
    match decPageUseCount state low with
    | some (true, state) => some { state with nrPages := state.nrPages - 1 }
    | _ => none
  else
    none

/--
The second loop of `remove_table_reference`.  `lowest` holds at the level of
the leaf, where no lower table is freed.
-/
def clearTables
    (setup : PgtblSetup)
    (vaddr : Nat) :
    Bool → List (Nat × Nat) → PgtblState → Option PgtblState
  | _, [], state => some state
  | lowest, (lvl, table) :: upper, state =>
      let idx := pgtblCalcIndexVal vaddr lvl
      let low := pteToPfn (state.mem table idx)
      let state := state.writePte table idx (ptePaddrToPpn 0)
      if setup.isPfnValid table then
        match decPageUseCount state table with
        | none => none
        | some (_, state) =>
            -- the source leaves the loop here, before it frees `low`
            if state.usecnt table > 1 then
              some state
            else if lowest then
              clearTables setup vaddr false upper state
            else
              match freeLowTable setup state low with
              | none => none
              | some state => clearTables setup vaddr false upper state
      else
        none

/-- `remove_table_reference`. -/
def removeTableReference
    (setup : PgtblSetup)
    (state : PgtblState)
    (vaddr : Nat) : Option PgtblState :=
  match collectTables state.mem vaddr pgtblLvlNr setup.base [] with
  | none => none
  | some tables => clearTables setup vaddr true tables state

/-- `PAGE_ALIGNED`, `PAGE_2MB_ALIGNED` and `PAGE_1GB_ALIGNED`. -/
def aligned (address size : Nat) : Bool :=
  address % size == 0

/-- `HAL_PAGE_SIZE_2M` and `HAL_PAGE_SIZE_1G`. -/
def halPageSize2M : Nat := 0x200000
def halPageSize1G : Nat := 0x40000000

/-- `map_vaddr_to_paddr`. -/
def mapVaddrToPaddr
    (setup : PgtblSetup)
    (state : PgtblState)
    (vaddr paddr prot flags pgsize : Nat) :
    Option (Except Errno Unit × PgtblState) :=
  if pgsize = halPageSize1G ∧
      !(aligned vaddr halPageSize1G && aligned paddr halPageSize1G) then
    some (.error .einval, state)
  else if pgsize = halPageSize2M ∧
      !(aligned vaddr halPageSize2M && aligned paddr halPageSize2M) then
    some (.error .einval, state)
  else if pgsize = pageSize ∧
      !(aligned vaddr pageSize && aligned paddr pageSize) then
    some (.error .einval, state)
  else
    match mapLoop setup vaddr paddr prot flags pgsize pgtblLvlNr setup.base
        state with
    | some (.error .enomem, state) =>
        (removeTableReference setup state vaddr).map fun state =>
          (.error .enomem, state)
    | result => result

/-- Addresses are 64-bit words. -/
def addressSpace : Nat := 2 ^ 64

/-- The loop of `hal_pgtbl_enter`, by the pages left. -/
def enterLoop
    (setup : PgtblSetup)
    (prot flags pgsize : Nat) :
    Nat → Nat → Nat → PgtblState → Option (Except Errno Unit × PgtblState)
  | 0, _, _, state => some (.ok (), state)
  | pages + 1, curVaddr, curPaddr, state =>
      match mapVaddrToPaddr setup state curVaddr curPaddr prot flags pgsize with
      | none => none
      | some (.error code, state) => some (.error code, state)
      | some (.ok (), state) =>
          enterLoop setup prot flags pgsize pages
            ((curVaddr + pgsize) % addressSpace)
            ((curPaddr + pgsize) % addressSpace) state

namespace MapRequest

def vaddrEnd (request : MapRequest) : Nat :=
  (request.vaddr + request.len) % addressSpace

def paddrEnd (request : MapRequest) : Nat :=
  (request.paddr + request.len) % addressSpace

/-- The four bounds of a request are multiples of a page size. -/
def aligned (request : MapRequest) (size : Nat) : Bool :=
  Pgtbl.aligned request.vaddr size && Pgtbl.aligned request.paddr size &&
    Pgtbl.aligned request.vaddrEnd size && Pgtbl.aligned request.paddrEnd size

/-- The page size that `hal_pgtbl_enter` selects. -/
def pgsize (request : MapRequest) : Nat :=
  if request.aligned halPageSize1G then
    halPageSize1G
  else if request.aligned halPageSize2M then
    halPageSize2M
  else
    pageSize

/-- The rounds of the loop `for (cur = vaddr; end > cur; cur += pgsize)`. -/
def pages (request : MapRequest) : Nat :=
  (request.vaddrEnd - request.vaddr) / request.pgsize

end MapRequest

/-- `hal_pgtbl_enter`; bounds that are not page aligned stop the kernel. -/
def halPgtblEnter
    (setup : PgtblSetup)
    (state : PgtblState)
    (request : MapRequest) : Option (Except Errno Unit × PgtblState) :=
  if request.aligned pageSize then
    enterLoop setup request.prot request.flags request.pgsize request.pages
      request.vaddr request.paddr state
  else
    none

/-! ## The remover -/

/-- Drop the use count of the page that a managed mapping maps. -/
def releaseMapped
    (setup : PgtblSetup)
    (state : PgtblState)
    (unmanaged : Bool) :
    Except Errno Mapping → Option PgtblState
  | .error _ => some state
  | .ok mapping =>
      if unmanaged then
        some state
      else if setup.isPfnValid (mapping.paddr >>> pageShift) then
        (decPageUseCount state (mapping.paddr >>> pageShift)).map Prod.snd
      else
        none

/-- The step of the cursor of `hal_pgtbl_remove` after one page. -/
def pgsizeAfter (pgsize : Nat) : Except Errno Mapping → Nat
  | .error _ => pgsize
  | .ok mapping => mapping.pgsize

/-- One round of `hal_pgtbl_remove`. -/
def removePage
    (setup : PgtblSetup)
    (state : PgtblState)
    (unmanaged : Bool)
    (vaddr : Nat) : Option PgtblState :=
  match releaseMapped setup state unmanaged
      (halPgtblExtract setup state.mem vaddr) with
  | none => none
  | some state => removeTableReference setup state vaddr

/-- The loop of `hal_pgtbl_remove`; the first argument bounds the rounds. -/
def removeLoop
    (setup : PgtblSetup)
    (unmanaged : Bool)
    (vaddrEnd : Nat) :
    Nat → Nat → Nat → PgtblState → Option PgtblState
  | 0, _, _, _ => none
  | rounds + 1, curVaddr, pgsize, state =>
      if vaddrEnd > curVaddr then
        match removePage setup state unmanaged curVaddr with
        | none => none
        | some after =>
            let pgsize :=
              pgsizeAfter pgsize (halPgtblExtract setup state.mem curVaddr)
            removeLoop setup unmanaged vaddrEnd rounds
              ((curVaddr + pgsize) % addressSpace) pgsize after
      else
        some state

/-- More rounds than a 64-bit address space has pages. -/
def removeRounds : Nat := 2 ^ 52 + 1

/-- `hal_pgtbl_remove`. -/
def halPgtblRemove
    (setup : PgtblSetup)
    (state : PgtblState)
    (vaddr flags len : Nat) : Option PgtblState :=
  let vaddrEnd := (vaddr + len) % addressSpace
  if aligned vaddr pageSize && aligned vaddrEnd pageSize then
    removeLoop setup (flags &&& vmFlagsUnmanaged != 0) vaddrEnd removeRounds
      vaddr pageSize state
  else
    some state

end RiscvWorkshop.Pgtbl
