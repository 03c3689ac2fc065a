import Mathlib
import RiscvWorkshop.ProcessAllocate

namespace RiscvWorkshop.Process

open Pgtbl Vm ThreadId Bitops

/-!
# What a failed creation of a process leaves behind

The pages, the page table and the record of a process come back on every error
but one: a page table whose slots of the kernel cannot be copied is lost.  The
process number comes back only if the uninitialised thread pointer happens to
lead to it.
-/

variable {kernel : KernelSetup}
variable {world : AllocWorld}
variable {state middle after : AllocState}
variable {addr pid pgt base : Nat}
variable {code : Errno}

/-- The caches and the page pool hold what nobody uses, and the kernel's base
table has nothing where the stack goes. -/
structure AllocReady
    (kernel : KernelSetup)
    (state : AllocState) : Prop where
  pool : PoolReady kernel.isPfnValid state.pages
  kernelUsed : kernel.kernelBase ∉ state.pages.pgtbl.free
  stackSlot :
    pteIsValid
        (state.pages.pgtbl.mem kernel.kernelBase
          (pgtblCalcIndexVal stackSegment.start 2)) =
      false
  records : ∀ addr ∈ state.procCache, state.sys.procs addr = none

/-- Everything is as it was: the processes, the numbers, the pages, the caches. -/
structure AsBefore
    (before after : AllocState) : Prop where
  sys : after.sys = before.sys
  db : after.db = before.db
  pages : Held before.pages after.pages []
  procCache : after.procCache = before.procCache
  pgtblCache : after.pgtblCache = before.pgtblCache
  thrCache : after.thrCache = before.thrCache
  kernelMtx : after.kernelMtx = before.kernelMtx

theorem AsBefore.refl (state : AllocState) : AsBefore state state where
  sys := rfl
  db := rfl
  pages := Held.refl state.pages
  procCache := rfl
  pgtblCache := rfl
  thrCache := rfl
  kernelMtx := rfl

/-- A process record and a process number have been taken. -/
structure Underway
    (before after : AllocState)
    (addr pid : Nat) : Prop where
  sys :
    { after.sys with procs := Function.update after.sys.procs addr none } =
      before.sys
  db :
    after.db =
      { before.db with
        idmap := bitopsSet pid before.db.idmap
        procIds := pid :: before.db.procIds }
  procCache : addr :: after.procCache = before.procCache
  thrCache : after.thrCache = before.thrCache
  kernelMtx : after.kernelMtx = before.kernelMtx

/-- What the label `free_id_out` leaves of a creation that holds no pages. -/
theorem Underway.freeIdOut_iff
    {before : AllocState}
    (underway : Underway before state addr pid)
    (pages : Held before.pages state.pages [])
    (pgtblCache : state.pgtblCache = before.pgtblCache)
    (inMap : pid < 64 * before.db.idmap.length)
    (clear : isset before.db.idmap pid = false) :
    AsBefore before (state.freeIdOut world addr) ↔ world.thrId = pid := by
  have database :
      (state.freeIdOut world addr).db =
        { before.db with
          idmap := bitopsClr world.thrId (bitopsSet pid before.db.idmap)
          procIds := (pid :: before.db.procIds).erase world.thrId } := by
    simp [AllocState.freeIdOut, AllocState.freeProcOut, AllocState.freeProc,
      AllocState.releaseId, ThreadDb.releaseTidNolock, underway.db]
  constructor
  · intro same
    have idmap := congrArg ThreadDb.idmap (database.symm.trans same.db)
    exact (bitopsClr_bitopsSet_iff inMap clear).mp idmap
  · intro found
    refine
      { sys := underway.sys
        db := ?_
        pages := pages
        procCache := underway.procCache
        pgtblCache := pgtblCache
        thrCache := underway.thrCache
        kernelMtx := underway.kernelMtx }
    rw [database, (bitopsClr_bitopsSet_iff inMap clear).mpr found, found,
      List.erase_cons_head]

/-! ## The page table -/

/-- A page table for the new process, and nothing else of the page pool. -/
structure TableTaken
    (kernel : KernelSetup)
    (before after : AllocState)
    (pgt base : Nat) : Prop where
  pages : Held before.pages after.pages [base]
  pgtblCache : pgt :: after.pgtblCache = before.pgtblCache
  nrPages : after.pages.pgtbl.nrPages = 1
  counted : after.pages.pgtbl.usecnt base = 1

/-- Without a lock of the kernel's page table the new one is lost. -/
structure TableLost
    (world : AllocWorld)
    (before after : AllocState) : Prop where
  refused : world.kernelLocked ≠ .ok ()
  page :
    after.pages.pgtbl.free.length + 1 = before.pages.pgtbl.free.length

/-- A page table with nothing where the stack goes, and no other change. -/
structure TableReady
    (kernel : KernelSetup)
    (world : AllocWorld)
    (before after : AllocState)
    (pgt base : Nat) : Prop where
  locked : world.kernelLocked = .ok ()
  taken : TableTaken kernel before after pgt base
  empty :
    EmptySlot (AllocState.tableOf kernel base after) after.pages.pgtbl
      stackSegment.start
  others :
    after =
      { before with
        pgtblCache := after.pgtblCache
        pages := after.pages }

theorem pgtblAllocUserPgtbl_cases
    {result : Except Errno (Nat × Nat)}
    (pool : PoolReady kernel.isPfnValid state.pages)
    (kernelUsed : kernel.kernelBase ∉ state.pages.pgtbl.free)
    (stackSlot :
      pteIsValid
          (state.pages.pgtbl.mem kernel.kernelBase
            (pgtblCalcIndexVal stackSegment.start 2)) =
        false)
    (allocated :
      AllocState.pgtblAllocUserPgtbl kernel world state =
        some (result, after)) :
    (∃ code, result = .error code ∧ TableLost world state after) ∨
      ∃ pgt base,
        result = .ok (pgt, base) ∧
          TableReady kernel world state after pgt base := by
  rw [AllocState.pgtblAllocUserPgtbl, AllocState.pgtblAllocPgtbl] at allocated
  cases cache : state.pgtblCache with
  | nil =>
      rw [cache] at allocated
      cases allocated
  | cons pgt tables =>
      cases free : state.pages.pgtbl.free with
      | nil =>
          simp [cache, pgtblAllocPgtblPage, AllocState.withNoTable, free]
            at allocated
      | cons base rest =>
          simp only [cache, pgtblAllocPgtblPage, AllocState.withNoTable, free,
            Option.map_some, AllocState.halCopyKernelPgtbl] at allocated
          cases locked : world.kernelLocked with
          | error code =>
              simp only [locked, Option.some.injEq, Prod.mk.injEq] at allocated
              obtain ⟨rfl, rfl⟩ := allocated
              refine .inl ⟨code, rfl, ?_, ?_⟩
              · rw [locked]
                intro done
                cases done
              · rw [free]
                rfl
          | ok =>
              simp only [locked, Option.some.injEq, Prod.mk.injEq] at allocated
              obtain ⟨rfl, rfl⟩ := allocated
              have baseFree : base ∈ state.pages.pgtbl.free :=
                free ▸ List.mem_cons_self
              have notKernel : kernel.kernelBase ≠ base := fun same =>
                kernelUsed (same ▸ baseFree)
              have notRest : base ∉ rest :=
                (List.nodup_cons.mp (free ▸ pool.nodup)).1
              refine .inr ⟨pgt, base, rfl, ?_⟩
              refine
                { locked := locked
                  taken :=
                    { pages := ?_
                      pgtblCache := cache.symm
                      nrPages := rfl
                      counted := Function.update_self .. }
                  empty :=
                    { known := pool.known base baseFree
                      notFree := notRest
                      counted := Function.update_self ..
                      unused := ?_ }
                  others := rfl }
              · refine (Held.refl state.pages).take [base] ?_
                  (fun _ _ => rfl) (fun pfn apart => ?_)
                · show (base :: rest).Perm _
                  rw [free]
                · rw [List.append_nil, List.mem_singleton] at apart
                  simp [apart]
              · simp [AllocState.tableOf, notKernel, stackSlot]

/-- Giving the page table back returns its base. -/
theorem TableTaken.pgtblFreeUserPgtbl
    {before : AllocState}
    (taken : TableTaken kernel before state pgt base)
    (ready : AllocReady kernel before)
    {released : AllocState}
    (freed : state.pgtblFreeUserPgtbl pgt base = some released) :
    Held before.pages released.pages [] ∧
      released.pgtblCache = before.pgtblCache ∧
      released =
        { state with
          pgtblCache := released.pgtblCache
          pages := released.pages } := by
  have noUser : state.pages.pgtbl.usecnt base - 1 = 0 := by
    rw [taken.counted]
    rfl
  rw [AllocState.pgtblFreeUserPgtbl, if_pos taken.nrPages] at freed
  simp only [decPageUseCount, noUser, lt_irrefl, if_false, if_true,
    Option.map_some, Option.some.injEq] at freed
  subst freed
  refine ⟨?_, taken.pgtblCache, rfl⟩
  refine taken.pages.give [base] ready.pool (List.Perm.refl _)
    (List.Perm.refl _) rfl ?_ fun pfn apart => ⟨?_, rfl⟩
  · simp
  · rw [List.mem_singleton] at apart
    exact Function.update_of_ne apart ..

/-! ## The stack and the thread -/

/-- The stack is the last page below the end of the user space. -/
theorem stackSegment_facts :
    stackSegment.start = 0x3FFFFFF000 ∧
      stackSegment.stop = stackSegment.start + pageSize ∧
      stackSegment.flags = 0 ∧
      stackSegment.prot &&& vmProtMask ≠ 0 ∧
      pageSize ∣ stackSegment.start ∧
      stackSegment.start + pageSize < addressSpace := by
  decide

/-- The stack page is mapped, and no other change. -/
structure StackMapped
    (table : PgtblSetup)
    (before after : AllocState)
    (upper lower frame : Nat) : Prop where
  page :
    OnePage table after.pages stackSegment.start upper lower frame
      stackSegment.prot 0
  mapped : OnePageMapped table upper lower frame before.pages after.pages
  others : after = { before with pages := after.pages }

theorem mapStack_cases
    {table : PgtblSetup}
    {result : Except Errno Unit}
    (empty : EmptySlot table state.pages.pgtbl stackSegment.start)
    (ready : PoolReady table.isPfnValid state.pages)
    (called :
      AllocState.mapStack kernel world table state = some (result, after)) :
    (∃ code, result = .error code ∧ after = state) ∨
      (result = .ok () ∧
        ∃ upper lower frame, StackMapped table state after upper lower frame) := by
  obtain ⟨_, stop, flags, asked, whole, inSpace⟩ := stackSegment_facts
  obtain ⟨rounds, enough⟩ : ∃ rounds, allPages = rounds + 2 :=
    ⟨2 ^ 52 - 1, by decide⟩
  have size : stackSegment.stop - stackSegment.start = pageSize := by
    omega
  obtain ⟨⟨found, pages⟩, mapped, same⟩ := Option.map_eq_some_iff.mp called
  rw [enough, size, flags] at mapped
  cases same
  rcases vmMapUserpage_onePage kernel.pool empty ready whole inSpace asked with
    stopped | ⟨code, failed⟩ | ⟨upper, lower, frame, after, done, page, facts⟩
  · rw [stopped] at mapped
    cases mapped
  · rw [failed] at mapped
    cases mapped
    exact .inl ⟨code, rfl, rfl⟩
  · rw [done] at mapped
    cases mapped
    exact .inr ⟨rfl, upper, lower, frame, page, facts, rfl⟩

/-- A creation that gets no number leaves the numbers as they are. -/
theorem createThreadCommon_error
    {db later : ThreadDb}
    {id prio flags : Nat}
    {stackGiven : Bool}
    {memory : ThreadId.Memory}
    (created :
      db.createThreadCommon id stackGiven prio flags memory =
        some (.error code, later)) :
    later = db := by
  rw [ThreadDb.createThreadCommon, ThreadDb.allocNewTidNolock] at created
  iterate 4
    split at created
    · cases created
      rfl
  split at created
  · obtain ⟨_, _, same⟩ := Option.map_eq_some_iff.mp created
    cases same
  · cases found : bitopsFfc db.idmap with
    | zero =>
        rw [found] at created
        cases created
        rfl
    | succ newid =>
        rw [found] at created
        obtain ⟨_, _, same⟩ := Option.map_eq_some_iff.mp created
        cases same

/-- A failed creation of the first thread gives back what it took. -/
theorem threadCreate_failed
    (ready : PoolReady kernel.isPfnValid state.pages)
    (called :
      AllocState.threadCreate kernel state = some (.error code, after)) :
    Held state.pages after.pages [] ∧
      after.pages.pgtbl.nrPages = state.pages.pgtbl.nrPages ∧
      after = { state with pages := after.pages } := by
  rw [AllocState.threadCreate] at called
  cases cache : state.thrCache with
  | nil =>
      rw [cache] at called
      cases called
      exact ⟨Held.refl _, rfl, by rw [← cache]⟩
  | cons thr rest =>
      simp only [cache] at called
      cases cluster :
          pgifGetFreePageCluster kernel.pool state.pages kernel.kstackOrder with
      | none =>
          rw [cluster] at called
          cases called
          exact ⟨Held.refl _, rfl, by rw [← cache]⟩
      | some taken =>
          obtain ⟨stack, middle⟩ := taken
          simp only [cluster] at called
          cases created :
              state.db.createThreadCommon thrTidAuto false schedMinUserPrio
                thrThrflagsUser ⟨true, true⟩ with
          | none =>
              rw [created] at called
              cases called
          | some result =>
              obtain ⟨number | number, db⟩ := result
              · simp only [created] at called
                obtain ⟨⟨last, pages⟩, returned, same⟩ :=
                  Option.map_eq_some_iff.mp called
                cases same
                obtain ⟨nothing, counted⟩ :=
                  held_of_cluster ready cluster returned
                refine ⟨nothing, counted, ?_⟩
                rw [createThreadCommon_error created, ← cache]
              · simp only [created] at called
                cases called

/-! ## The labels -/

section Labels

variable {before : AllocState}

/-- A change of pages and page tables does not touch a record or a number. -/
theorem Underway.congr
    {later : AllocState}
    (underway : Underway before state addr pid)
    (others :
      later =
        { state with
          pgtblCache := later.pgtblCache
          pages := later.pages }) :
    Underway before later addr pid := by
  rw [others]
  exact
    { sys := underway.sys
      db := underway.db
      procCache := underway.procCache
      thrCache := underway.thrCache
      kernelMtx := underway.kernelMtx }

/-- From `free_pgtbl_out` on the number alone may be missed. -/
theorem Underway.freePgtblOut_iff
    (underway : Underway before state addr pid)
    (taken : TableTaken kernel before state pgt base)
    (ready : AllocReady kernel before)
    (inMap : pid < 64 * before.db.idmap.length)
    (clear : isset before.db.idmap pid = false)
    (freed : state.freePgtblOut world addr pgt base = some after) :
    AsBefore before after ↔ world.thrId = pid := by
  obtain ⟨released, tableFreed, rfl⟩ := Option.map_eq_some_iff.mp freed
  obtain ⟨pages, pgtblCache, others⟩ :=
    taken.pgtblFreeUserPgtbl ready tableFreed
  exact (underway.congr others).freeIdOut_iff pages pgtblCache inMap clear

/-- From `free_stk_out` on the number alone may be missed. -/
theorem Underway.freeStkOut_iff
    {table : PgtblSetup}
    {upper lower frame : Nat}
    (underway : Underway before state addr pid)
    (page :
      OnePage table state.pages stackSegment.start upper lower frame
        stackSegment.prot 0)
    (pages : Held before.pages state.pages [frame, upper, lower, table.base])
    (pgtblCache : pgt :: state.pgtblCache = before.pgtblCache)
    (nrPages : state.pages.pgtbl.nrPages = 3)
    (ready : AllocReady kernel before)
    (inMap : pid < 64 * before.db.idmap.length)
    (clear : isset before.db.idmap pid = false)
    (freed :
      state.freeStkOut world table addr pgt table.base = some after) :
    AsBefore before after ↔ world.thrId = pid := by
  obtain ⟨_, stop, flags, asked, whole, inSpace⟩ := stackSegment_facts
  obtain ⟨rounds, enough⟩ : ∃ rounds, allPages = rounds + 2 :=
    ⟨2 ^ 52 - 1, by decide⟩
  obtain ⟨released, stackFreed, tableFreed⟩ := Option.bind_eq_some_iff.mp freed
  obtain ⟨cleared, unmapped, rfl⟩ := Option.map_eq_some_iff.mp stackFreed
  obtain ⟨_, ran, facts⟩ :=
    page.releaseProcessSegment world.locals world.rmPgsize rounds whole inSpace
  rw [stop, flags, enough, ran] at unmapped
  cases unmapped
  have taken :
      TableTaken kernel before { state with pages := cleared } pgt table.base :=
    { pages := facts.gives pages ready.pool
      pgtblCache := pgtblCache
      nrPages := by
        rw [facts.nrPages, nrPages]
        rfl
      counted := facts.base }
  have still : Underway before { state with pages := cleared } addr pid :=
    underway.congr rfl
  exact still.freePgtblOut_iff taken ready inMap clear tableFreed

end Labels

/-! ## The errors that are undone -/

/-- A record and a number have been taken, and the number is in the record. -/
theorem underway_setPid
    {rest : List Nat}
    {p : Proc}
    (records : ∀ addr ∈ state.procCache, state.sys.procs addr = none)
    (cache : state.procCache = addr :: rest) :
    Underway state
      ({ state with
          procCache := rest
          sys := state.sys.setProc addr p
          db :=
            { state.db with
              idmap := bitopsSet pid state.db.idmap
              procIds := pid :: state.db.procIds } }.setPid addr pid)
      addr pid := by
  have unused : state.sys.procs addr = none :=
    records addr (cache ▸ List.mem_cons_self)
  have procs :
      Function.update state.sys.procs addr none = state.sys.procs := by
    rw [← unused, Function.update_eq_self]
  refine
    { sys := ?_
      db := rfl
      procCache := cache.symm
      thrCache := rfl
      kernelMtx := rfl }
  simp [AllocState.setPid, ProcSystem.setProc, procs]

/-- Without a thread the stack and the page table are given back. -/
theorem Underway.threadCreate_iff
    {before mapped : AllocState}
    {upper lower frame : Nat}
    (underway : Underway before mapped addr pid)
    (stack :
      StackMapped (AllocState.tableOf kernel base state) state mapped upper
        lower frame)
    (taken : TableTaken kernel before state pgt base)
    (ready : AllocReady kernel before)
    (inMap : pid < 64 * before.db.idmap.length)
    (clear : isset before.db.idmap pid = false)
    (created :
      (match AllocState.threadCreate kernel mapped with
        | none => none
        | some (.error code, state') =>
            (state'.freeStkOut world (AllocState.tableOf kernel base state)
              addr pgt base).map fun state => (.error code, state)
        | some (.ok thr, state') => state'.enterProcess addr thr) =
        some (.error code, after)) :
    AsBefore before after ↔ world.thrId = pid := by
  have pages := stack.mapped.takes taken.pages
  have pool := pages.poolReady ready.pool
  cases thread : AllocState.threadCreate kernel mapped with
  | none =>
      rw [thread] at created
      cases created
  | some found =>
      obtain ⟨failed | thr, later⟩ := found
      · simp only [thread] at created
        obtain ⟨freed, ran, same⟩ := Option.map_eq_some_iff.mp created
        cases same
        obtain ⟨nothing, counted, others⟩ := threadCreate_failed pool thread
        have still : Underway before later addr pid := by
          refine underway.congr ?_
          rw [others]
        refine still.freeStkOut_iff
          (stack.page.keep pages ready.pool nothing) (pages.trans nothing) ?_
          ?_ ready inMap clear ran
        · rw [others, stack.others]
          exact taken.pgtblCache
        · rw [counted, stack.mapped.nrPages, taken.nrPages]
          rfl
      · simp only [thread, AllocState.enterProcess] at created
        split at created
        · cases created
        · split at created <;> cases created

/-- The page table is given back, and the number if it is found again. -/
theorem Underway.buildProcess_iff
    {before : AllocState}
    (underway : Underway before state addr pid)
    (pages : state.pages = before.pages)
    (pgtblCache : state.pgtblCache = before.pgtblCache)
    (ready : AllocReady kernel before)
    (inMap : pid < 64 * before.db.idmap.length)
    (clear : isset before.db.idmap pid = false)
    (built :
      AllocState.buildProcess kernel world addr state =
        some (.error code, after)) :
    AsBefore before after ↔
      world.kernelLocked = .ok () ∧ world.thrId = pid := by
  rw [AllocState.buildProcess] at built
  cases allocated : AllocState.pgtblAllocUserPgtbl kernel world state with
  | none =>
      rw [allocated] at built
      cases built
  | some found =>
      obtain ⟨result, middle⟩ := found
      rcases pgtblAllocUserPgtbl_cases (pages ▸ ready.pool)
          (pages ▸ ready.kernelUsed) (pages ▸ ready.stackSlot) allocated with
        ⟨code, rfl, lost⟩ | ⟨pgt, base, rfl, table⟩
      · -- the base page of the table is missed
        simp only [allocated, Option.some.injEq, Prod.mk.injEq] at built
        obtain ⟨_, rfl⟩ := built
        refine ⟨fun same => ?_, fun right => absurd right.1 lost.refused⟩
        have length := same.pages.free.length_eq
        have page := lost.page
        rw [pages] at page
        have kept :
            (middle.freeIdOut world addr).pages = middle.pages := rfl
        rw [List.nil_append, kept] at length
        omega
      · simp only [allocated] at built
        have locked := table.locked
        have taken : TableTaken kernel before middle pgt base :=
          { pages := pages ▸ table.taken.pages
            pgtblCache := pgtblCache ▸ table.taken.pgtblCache
            nrPages := table.taken.nrPages
            counted := table.taken.counted }
        have pool := taken.pages.poolReady ready.pool
        have middleWay := underway.congr table.others
        simp only [locked, true_and]
        cases mapped :
            AllocState.mapStack kernel world
              (AllocState.tableOf kernel base middle) middle with
        | none =>
            rw [mapped] at built
            cases built
        | some found =>
            obtain ⟨result, later⟩ := found
            rcases mapStack_cases table.empty pool mapped with
              ⟨code, rfl, rfl⟩ | ⟨rfl, upper, lower, frame, stack⟩
            · simp only [mapped] at built
              obtain ⟨freed, ran, same⟩ := Option.map_eq_some_iff.mp built
              cases same
              exact middleWay.freePgtblOut_iff taken ready inMap clear ran
            · simp only [mapped] at built
              have still : Underway before later addr pid := by
                refine middleWay.congr ?_
                rw [stack.others]
              exact still.threadCreate_iff stack taken ready inMap clear built

/--
A failed creation leaves everything as it was exactly if no record or no number
was to be had, or if the page table was, and the thread pointer that is read
before it is set leads to the number of the new process.
-/
theorem errorUndone_iff
    (ready : AllocReady kernel state)
    (returned :
      AllocState.procUserAllocate kernel world state =
        some (.error code, after)) :
    AsBefore state after ↔
      state.procCache = [] ∨
        bitopsFfc state.db.idmap = 0 ∨
          (world.kernelLocked = .ok () ∧
            bitopsFfc state.db.idmap = world.thrId + 1) := by
  rw [AllocState.procUserAllocate, AllocState.allocateProcessCommon]
    at returned
  cases cache : state.procCache with
  | nil =>
      rw [cache] at returned
      cases returned
      exact ⟨fun _ => .inl rfl, fun _ => AsBefore.refl state⟩
  | cons addr rest =>
      simp only [cache] at returned
      rcases bitopsFfc_eq state.db.idmap with
        ⟨full, _⟩ | ⟨pid, inMap, found, clear⟩
      · have refused : state.db.thrIdAlloc = (.error .enospc, state.db) := by
          simp [ThreadDb.thrIdAlloc, ThreadDb.allocNewTidNolock, full]
        simp only [refused, Option.some.injEq, Prod.mk.injEq] at returned
        obtain ⟨_, rfl⟩ := returned
        have unused : state.sys.procs addr = none :=
          ready.records addr (cache ▸ List.mem_cons_self)
        refine ⟨fun _ => .inr (.inl full), fun _ => ?_⟩
        exact
          { sys := by
              simp [AllocState.freeProcOut, AllocState.freeProc,
                ProcSystem.setProc, ← unused]
            db := rfl
            pages := Held.refl state.pages
            procCache := cache.symm
            pgtblCache := rfl
            thrCache := rfl
            kernelMtx := rfl }
      · have allocated :
            state.db.thrIdAlloc =
              (.ok pid,
                { state.db with
                  idmap := bitopsSet pid state.db.idmap
                  procIds := pid :: state.db.procIds }) := by
          simp [ThreadDb.thrIdAlloc, ThreadDb.allocNewTidNolock, found]
        simp only [allocated] at returned
        have undone :=
          (underway_setPid ready.records cache).buildProcess_iff rfl rfl ready
            inMap clear returned
        rw [undone, found]
        simp [eq_comm]

/-- A kernel with a small stack. -/
def smallKernel : KernelSetup where
  kernelBase := 1
  kstackOrder := 0
  isPfnValid := fun _ => true
  pool := firstFit

/-- Process 32 is there, and there are records and pages, but no threads. -/
def withoutThreads : AllocState where
  sys := procInit (fun _ => 0) (fun _ => 0)
  db := { idmap := [0x1FFFFFFFF#64], head := [], procIds := [32] }
  pages :=
    vmState
      { mem := fun _ _ => 0
        usecnt := fun pfn => if pfn ∈ [2, 3, 4, 5] then 0 else 1
        free := [2, 3, 4, 5]
        nrPages := 0
        tables := []
        visited := [] }
  procCache := [0x100]
  pgtblCache := [0x200]
  thrCache := []
  kernelMtx := 1

/-- The locks are free, and `thr` points to an object with some number. -/
def strayThread (thrId : Nat) : AllocWorld where
  kernelLocked := .ok ()
  locked := .ok ()
  locals := { mapFlags := 0, mapPgsize := 0 }
  rmPgsize := 0
  thrId := thrId

theorem withoutThreads_ready : AllocReady smallKernel withoutThreads where
  pool :=
    { nodup := by decide
      unused := by decide
      bound := by decide
      known := fun _ _ => rfl }
  kernelUsed := by decide
  stackSlot := by decide
  records := fun _ _ => rfl

/-- Without threads everything comes back if the pointer leads to the number. -/
theorem errorUndone_iff_sameNumber :
    ∃ code after,
      AllocState.procUserAllocate smallKernel (strayThread 33) withoutThreads =
          some (.error code, after) ∧
        AsBefore withoutThreads after := by
  obtain ⟨⟨result, after⟩, returned⟩ :=
    Option.isSome_iff_exists.mp
      (show
        (AllocState.procUserAllocate smallKernel (strayThread 33)
          withoutThreads).isSome = true by decide +kernel)
  have failed :
      ((AllocState.procUserAllocate smallKernel (strayThread 33)
        withoutThreads).map fun found => found.1.toBool) = some false := by
    decide +kernel
  rw [returned] at failed
  cases result with
  | ok addr =>
      cases failed
  | error code =>
      exact ⟨code, after, returned,
        (errorUndone_iff withoutThreads_ready returned).mpr
          (.inr (.inr ⟨rfl, by decide⟩))⟩

/--
Without threads the number of a process that lives is released if the pointer
leads to it, and the number of the new process is never released.
-/
theorem otherNumber_released :
    ∃ code after,
      AllocReady smallKernel withoutThreads ∧
        AllocState.procUserAllocate smallKernel (strayThread 32)
            withoutThreads = some (.error code, after) ∧
          isset withoutThreads.db.idmap 32 = true ∧
          isset withoutThreads.db.idmap 33 = false ∧
          isset after.db.idmap 32 = false ∧
          isset after.db.idmap 33 = true ∧
          ¬ AsBefore withoutThreads after := by
  obtain ⟨⟨result, after⟩, returned⟩ :=
    Option.isSome_iff_exists.mp
      (show
        (AllocState.procUserAllocate smallKernel (strayThread 32)
          withoutThreads).isSome = true by decide +kernel)
  have facts :
      ((AllocState.procUserAllocate smallKernel (strayThread 32)
        withoutThreads).map fun found =>
          (found.1.toBool, isset found.2.db.idmap 32,
            isset found.2.db.idmap 33)) = some (false, false, true) := by
    decide +kernel
  rw [returned, Option.map_some, Option.some.injEq, Prod.mk.injEq,
    Prod.mk.injEq] at facts
  obtain ⟨failed, released, kept⟩ := facts
  cases result with
  | ok addr =>
      cases failed
  | error code =>
      refine ⟨code, after, withoutThreads_ready, returned, by decide,
        by decide, released, kept, fun same => ?_⟩
      have before : isset withoutThreads.db.idmap 32 = true := by decide
      rw [same.db, before] at released
      cases released

end RiscvWorkshop.Process
