import Mathlib
import RiscvWorkshop.SpinLock
import RiscvWorkshop.PageFrameReserveRuns

namespace RiscvWorkshop.Pfdb

open SpinLock

/-!
# The locks of the page frame database

Each operation of the database as the lock operations and the work between
them.  The work is that of the functions without locks; a variable that holds
a saved interrupt state is written where the source writes it.
-/

/-- `g_pfdb.lock`, and the lock of the pool of the region that starts at a page. -/
inductive PfdbLock where
  | db
  | pool (minPfn : Nat)
deriving Repr, DecidableEq

/-- The lock of the database comes before the locks of the pools. -/
def lockRank : PfdbLock → Nat
  | .db => 0
  | .pool _ => 1

/-- Functions that run on a CPU with these locks. -/
abbrev OnPfdb := OnCpu PfdbLock

/-- `kassert( spinlock_locked_by_self(lock) )`. -/
def assertLocked (lock : PfdbLock) : OnPfdb Unit :=
  spinlockLockedBySelf lock >>= kassert

/-! ## Operations on all regions -/

/-- `dequeue_page_from_memory_area`. -/
def dequeuePageFromMemoryAreaLocked
    (ent : PfdbEnt)
    (order : Nat)
    (usage : PageUsage) : OnPfdb (Except Errno Nat × PageBuddy) :=
  if order ≥ pagePoolMaxOrder then
    pure (.error .einval, ent.pagePool)
  else do
    assertLocked .db
    let iflags ← spinlockLockDisableIntr (.pool ent.minPfn)
    let result ←
      orStop
        (dequeueLoop order usage (pagePoolMaxOrder - order) order ent.pagePool)
    spinlockUnlockRestoreIntr (.pool ent.minPfn) iflags
    pure result

/-- The loop of `pfdb_buddy_dequeue` over the regions. -/
def dequeueRegions
    (order : Nat)
    (usage : PageUsage) :
    List PfdbEnt → OnPfdb (Except Errno Nat × List PfdbEnt)
  | [] => pure (.error .enomem, [])
  | ent :: rest => do
      let (result, pool) ← dequeuePageFromMemoryAreaLocked ent order usage
      match result with
      | .error .enomem => do
          let (result, later) ← dequeueRegions order usage rest
          pure (result, { ent with pagePool := pool } :: later)
      | result => pure (result, { ent with pagePool := pool } :: rest)

/-- `pfdb_buddy_dequeue`. -/
def pfdbBuddyDequeueLocked
    (order : Nat)
    (usage : PageUsage)
    (db : List PfdbEnt) : OnPfdb (Except Errno Nat × List PfdbEnt) := do
  let iflags ← spinlockLockDisableIntr .db
  let result ← dequeueRegions order usage db
  spinlockUnlockRestoreIntr .db iflags
  pure result

/-- The regions from `pfdb_add` on are free as a whole when this holds. -/
def allFree (ent : PfdbEnt) : Bool :=
  (ent.pagePool.availablePages : Int) = freePages ent.pagePool

/-- `remove_pfdb_ent_common` up to the removal from the tree. -/
def removePfdbEntCommonLocked (ent : PfdbEnt) : OnPfdb (Except Errno Unit) := do
  assertLocked .db
  let iflags ← spinlockLockDisableIntr (.pool ent.minPfn)
  let result ← pure (if allFree ent then .ok () else .error .ebusy)
  spinlockUnlockRestoreIntr (.pool ent.minPfn) iflags
  pure result

/-- `pfdb_remove` of the region at a place of the tree. -/
def pfdbRemoveLocked
    (place : Nat)
    (db : List PfdbEnt) : OnPfdb (Except Errno Unit × List PfdbEnt) := do
  let ent ← orStop db[place]?
  let iflags ← spinlockLockDisableIntr .db
  let result ← removePfdbEntCommonLocked ent
  spinlockUnlockRestoreIntr .db iflags
  pure
    (result,
      match result with
      | .ok _ => db.eraseIdx place
      | .error _ => db)

/-- The loop of `pfdb_free` over the regions. -/
def freeRegions : List PfdbEnt → OnPfdb (List PfdbEnt)
  | [] => pure []
  | ent :: rest => do
      let result ← removePfdbEntCommonLocked ent
      let later ← freeRegions rest
      pure
        (match result with
        | .ok _ => later
        | .error _ => ent :: later)

/-- `pfdb_free`. -/
def pfdbFreeLocked (db : List PfdbEnt) : OnPfdb (List PfdbEnt) := do
  let iflags ← spinlockLockDisableIntr .db
  let result ← freeRegions db
  spinlockUnlockRestoreIntr .db iflags
  pure result

/-- `pfdb_stat`. -/
structure PfdbStat where
  nrPages : Nat
  nrFreePages : Int
  reservedPages : Int
  availablePages : Nat
  freeNr : Nat → Int
  usagePages : PageUsage → UInt64

/-- What one region adds to the statistics. -/
def PfdbStat.add (stat : PfdbStat) (ent : PfdbEnt) : PfdbStat :=
  let pool := ent.pagePool
  { nrPages := stat.nrPages + pool.nrPages
    nrFreePages := stat.nrFreePages + freePages pool
    reservedPages := stat.reservedPages + (pool.nrPages - pool.availablePages)
    availablePages := stat.availablePages + pool.availablePages
    freeNr := fun order => stat.freeNr order + pool.freeNr order
    usagePages := fun usage => stat.usagePages usage + pool.usagePages usage }

/-- The statistics after `memset`. -/
def PfdbStat.zero : PfdbStat :=
  { nrPages := 0
    nrFreePages := 0
    reservedPages := 0
    availablePages := 0
    freeNr := fun _ => 0
    usagePages := fun _ => 0 }

/-- `kcom_obtain_pfdb_stat`. -/
def kcomObtainPfdbStatLocked (db : List PfdbEnt) : OnPfdb PfdbStat := do
  let iflags ← spinlockLockDisableIntr .db
  let result ← pure (db.foldl PfdbStat.add .zero)
  spinlockUnlockRestoreIntr .db iflags
  pure result

/-! ## Registration -/

/-- The loop of `pfdb_add` over the pages of the new region. -/
def addUsablePagesLocked
    (minPfn : Nat)
    (inUse : Nat → Bool) :
    List Nat → PageBuddy → OnPfdb PageBuddy
  | [], pool => pure pool
  | i :: rest, pool =>
      if inUse i then
        addUsablePagesLocked minPfn inUse rest pool
      else do
        let pool ← pure (pool.modify i fun pf => { pf with reserved := false })
        let iflags ← spinlockLockDisableIntr (.pool minPfn)
        let result ← orStop (enqueuePageToBuddyPool pool i)
        spinlockUnlockRestoreIntr (.pool minPfn) iflags
        let pool ← pure result
        addUsablePagesLocked minPfn inUse rest
          { pool with availablePages := pool.availablePages + 1 }

/-- The entry of a region with a page pool. -/
def RegionLayout.ent
    (layout : RegionLayout)
    (pagePool : PageBuddy) : PfdbEnt :=
  { kvaddr := layout.kvaddr
    length := layout.length
    minPfn := layout.minPfn
    maxPfn := layout.maxPfn
    pagePool }

/-- `pfdb_add`. -/
def pfdbAddLocked
    (layout : RegionLayout)
    (raw : RawMemory)
    (db : List PfdbEnt) : OnPfdb (List PfdbEnt) := do
  let pool ← pure (initPool raw layout.nrPages layout.minPfn)
  let iflags ← spinlockLockDisableIntr .db
  let result ← pure (pfdbInsert (layout.ent pool) db)
  spinlockUnlockRestoreIntr .db iflags
  kassert result.isSome
  let pool ←
    addUsablePagesLocked layout.minPfn layout.inUse
      (List.range layout.nrPages) pool
  kassert
    (totalFreeBytes pool + layout.endAddr - layout.arrayPage = layout.length)
  orStop (pfdbInsert (layout.ent pool) db)

/-! ## One page -/

/-- The region that the search of the tree ends at, between the other regions. -/
def regionOf
    (pfn : Nat) :
    List PfdbEnt → Option (Option (List PfdbEnt × PfdbEnt × List PfdbEnt))
  | [] => some none
  | ent :: rest =>
      match pfdbEntCmp (lookupKey pfn) ent with
      | none => none
      | some order =>
          if order = 0 then some (some ([], ent, rest))
          else
            (regionOf pfn rest).map fun found =>
              found.map fun (earlier, region, later) =>
                (ent :: earlier, region, later)

/-- `pfn_to_page_frame`. -/
def pfnToPageFrameLocked
    (pfn : Nat)
    (db : List PfdbEnt) : OnPfdb (Except Errno PageFrame) := do
  let iflags ← spinlockLockDisableIntr .db
  let result ←
    orStop ((regionOf pfn db).map fun
      | none => .error .esrch
      | some (_, res, _) => .ok (res.pagePool.array (pfn - res.minPfn)))
  spinlockUnlockRestoreIntr .db iflags
  pure result

/-- The work of `mark_page_frame_reserved` under the lock of the pool. -/
def takeOffPool
    (pool : PageBuddy)
    (idx : Nat) : Option PageBuddy :=
  let pool := pool.queueDel (pool.array idx).order idx
  match adjustPageOrder pool idx 0 with
  | none => none
  | some pool =>
      if (pool.array idx).idle then
        let pool := setupClusteredPages pool idx
        some { pool with availablePages := pool.availablePages - 1 }
      else
        none

/-- `mark_page_frame_reserved`; both locks save to one variable. -/
def markPageFrameReservedLocked
    (pfn : Nat)
    (db : List PfdbEnt) : OnPfdb (Except Errno Unit × List PfdbEnt) := do
  let iflags ← spinlockLockDisableIntr .db
  let res ← orStop (regionOf pfn db)
  match res with
  | none => do
      spinlockUnlockRestoreIntr .db iflags
      pure (.error .esrch, db)
  | some (earlier, res, later) => do
      let idx := pfn - res.minPfn
      kassert !(res.pagePool.array idx).reserved
      let iflags ← spinlockLockDisableIntr (.pool res.minPfn)
      let pool ← orStop (takeOffPool res.pagePool idx)
      spinlockUnlockRestoreIntr (.pool res.minPfn) iflags
      let pool ← pure (pool.modify idx fun pf => { pf with reserved := true })
      spinlockUnlockRestoreIntr .db iflags
      pure (.ok (), earlier ++ { res with pagePool := pool } :: later)

/-- `unmark_page_frame_reserved`; both locks save to one variable. -/
def unmarkPageFrameReservedLocked
    (pfn : Nat)
    (db : List PfdbEnt) : OnPfdb (Except Errno Unit × List PfdbEnt) := do
  let iflags ← spinlockLockDisableIntr .db
  let res ← orStop (regionOf pfn db)
  match res with
  | none => do
      spinlockUnlockRestoreIntr .db iflags
      pure (.error .esrch, db)
  | some (earlier, res, later) => do
      let idx := pfn - res.minPfn
      if !(res.pagePool.array idx).reserved then do
        spinlockUnlockRestoreIntr .db iflags
        pure (.error .enolck, db)
      else do
        kassert (res.pagePool.array idx).idle
        let pool := res.pagePool.modify idx fun pf => { pf with reserved := false }
        let iflags ← spinlockLockDisableIntr (.pool res.minPfn)
        let pool ←
          orStop ((enqueuePageToBuddyPool pool idx).map fun pool =>
            { pool with availablePages := pool.availablePages + 1 })
        spinlockUnlockRestoreIntr (.pool res.minPfn) iflags
        spinlockUnlockRestoreIntr .db iflags
        pure (.ok (), earlier ++ { res with pagePool := pool } :: later)

/-- The loop over the pages of a range; every page has to succeed. -/
def overPagesLocked
    (operation : Nat → List PfdbEnt → OnPfdb (Except Errno Unit × List PfdbEnt)) :
    Nat → Nat → List PfdbEnt → OnPfdb (List PfdbEnt)
  | _, 0, db => pure db
  | pfn, pages + 1, db => do
      let (rc, db) ← operation pfn db
      kassert rc.isOk
      overPagesLocked operation (pfn + 1) pages db

/-- `pfdb_mark_phys_range_reserved`. -/
def pfdbMarkPhysRangeReservedLocked
    (range : PhysRange)
    (db : List PfdbEnt) : OnPfdb (List PfdbEnt) :=
  overPagesLocked markPageFrameReservedLocked range.firstPfn range.pages db

/-- `pfdb_unmark_phys_range_reserved`. -/
def pfdbUnmarkPhysRangeReservedLocked
    (range : PhysRange)
    (db : List PfdbEnt) : OnPfdb (List PfdbEnt) :=
  overPagesLocked unmarkPageFrameReservedLocked range.firstPfn range.pages db

/-- `pfdb_dec_page_use_count`; only the last user takes the lock of the pool. -/
def pfdbDecPageUseCountLocked
    (minPfn : Nat)
    (pool : PageBuddy)
    (idx : Nat) : OnPfdb (Bool × PageBuddy) := do
  let new := (pool.array idx).usecnt - 1
  kassert (0 ≤ new)
  let pool ← pure (pool.modify idx fun pf => { pf with usecnt := new })
  if new = 0 then do
    kassert ((pool.array idx).used && (pool.array idx).mapcnt == 0)
    let iflags ← spinlockLockDisableIntr (.pool minPfn)
    let result ← orStop (enqueuePageToBuddyPool pool idx)
    spinlockUnlockRestoreIntr (.pool minPfn) iflags
    pure (true, result)
  else
    pure (false, pool)

/-- Run a function of a pool on the page frame of a page frame number. -/
def atPageFrameLocked
    {Result : Type}
    (operation : Nat → PageBuddy → Nat → OnPfdb (Result × PageBuddy))
    (pfn : Nat) :
    List PfdbEnt → OnPfdb (Result × List PfdbEnt)
  | [] => orStop none
  | ent :: rest =>
      if ent.Holds pfn then do
        let (result, pool) ← operation ent.minPfn ent.pagePool (pfn - ent.minPfn)
        pure (result, { ent with pagePool := pool } :: rest)
      else do
        let (result, later) ← atPageFrameLocked operation pfn rest
        pure (result, ent :: later)

/-! ## The operations that keep one variable for each lock -/

theorem rank_above_db
    (minPfn : Nat) :
    ∀ outer ∈ [PfdbLock.db], lockRank outer < lockRank (.pool minPfn) := by
  intro outer member
  rw [List.mem_singleton.mp member]
  exact Nat.one_pos

theorem assertLocked_balanced :
    Balanced lockRank [.db] (assertLocked .db) (some ()) :=
  .kassertLocked List.mem_cons_self

theorem dequeuePageFromMemoryAreaLocked_balanced
    (ent : PfdbEnt)
    (order : Nat)
    (usage : PageUsage) :
    Balanced lockRank [.db] (dequeuePageFromMemoryAreaLocked ent order usage)
      (dequeuePageFromMemoryArea ent.pagePool order usage) := by
  rw [dequeuePageFromMemoryAreaLocked, dequeuePageFromMemoryArea]
  split_ifs
  · exact .pure _
  · refine Balanced.after assertLocked_balanced ?_
    exact Balanced.lockedSection (rank_above_db ent.minPfn) (.orStop _)

theorem dequeueRegions_balanced
    (order : Nat)
    (usage : PageUsage) :
    ∀ db : List PfdbEnt,
      Balanced lockRank [.db] (dequeueRegions order usage db)
        (pfdbBuddyDequeue order usage db) := by
  intro db
  induction db with
  | nil =>
      exact .pure _
  | cons ent rest inductionHypothesis =>
      have value :
          pfdbBuddyDequeue order usage (ent :: rest) =
            (dequeuePageFromMemoryArea ent.pagePool order usage).bind
              fun (result, pool) =>
                match result with
                | .error .enomem =>
                    (pfdbBuddyDequeue order usage rest).bind
                      fun (result, later) =>
                        some (result, { ent with pagePool := pool } :: later)
                | result =>
                    some (result, { ent with pagePool := pool } :: rest) := by
        rw [pfdbBuddyDequeue]
        cases dequeuePageFromMemoryArea ent.pagePool order usage with
        | none => rfl
        | some both =>
            obtain ⟨result, pool⟩ := both
            cases result with
            | ok pfn => rfl
            | error code =>
                cases code <;> try rfl
                simp only [Option.bind_some]
                cases pfdbBuddyDequeue order usage rest <;> rfl
      rw [value, dequeueRegions]
      refine Balanced.bind
        (dequeuePageFromMemoryAreaLocked_balanced ent order usage) ?_
      rintro ⟨result, pool⟩ -
      cases result with
      | ok pfn =>
          exact .pure _
      | error code =>
          cases code with
          | enomem =>
              exact Balanced.bind inductionHypothesis fun both _ => .pure _
          | _ => exact .pure _

theorem removePfdbEntCommonLocked_balanced
    (ent : PfdbEnt) :
    Balanced lockRank [.db] (removePfdbEntCommonLocked ent)
      (some (if allFree ent then .ok () else .error .ebusy)) := by
  refine Balanced.after assertLocked_balanced ?_
  exact Balanced.lockedSection (rank_above_db ent.minPfn) (.pure _)

theorem freeRegions_balanced :
    ∀ db : List PfdbEnt,
      Balanced lockRank [.db] (freeRegions db)
        (some (db.filter fun ent => !allFree ent)) := by
  intro db
  induction db with
  | nil =>
      exact .pure _
  | cons ent rest inductionHypothesis =>
      rw [freeRegions]
      have both :=
        Balanced.bind (removePfdbEntCommonLocked_balanced ent)
          fun result _ => Balanced.bind inductionHypothesis
            fun later _ =>
              Balanced.pure
                (match result with
                | .ok _ => later
                | .error _ => ent :: later)
      cases free : allFree ent with
      | true =>
          rw [List.filter_cons_of_neg (by simp [free])]
          simpa [free] using both
      | false =>
          rw [List.filter_cons_of_pos (by simp [free])]
          simpa [free] using both

theorem addUsablePagesLocked_balanced
    (minPfn : Nat)
    (inUse : Nat → Bool) :
    ∀ (pages : List Nat) (pool : PageBuddy),
      Balanced lockRank [] (addUsablePagesLocked minPfn inUse pages pool)
        (addUsablePages inUse pages pool) := by
  intro pages
  induction pages with
  | nil =>
      intro pool
      exact .pure pool
  | cons i rest inductionHypothesis =>
      intro pool
      by_cases inUsePage : inUse i
      · rw [addUsablePagesLocked, addUsablePages, if_pos inUsePage,
          if_pos inUsePage]
        exact inductionHypothesis pool
      · have value :
            addUsablePages inUse (i :: rest) pool =
              (enqueuePageToBuddyPool
                  (pool.modify i fun pf => { pf with reserved := false })
                  i).bind
                fun pool =>
                  addUsablePages inUse rest
                    { pool with
                      availablePages := pool.availablePages + 1 } := by
          rw [addUsablePages, if_neg inUsePage]
          cases linked :
            enqueuePageToBuddyPool
              (pool.modify i fun pf => { pf with reserved := false }) i <;>
            simp [linked]
        rw [value, addUsablePagesLocked, if_neg inUsePage]
        refine Balanced.pureBind ?_
        refine Balanced.underLock (by simp) (.orStop _) fun result _ => ?_
        exact Balanced.pureBind
          (inductionHypothesis
            { result with availablePages := result.availablePages + 1 })

/-- Whether a region can be inserted depends on its page numbers alone. -/
theorem pfdbInsert_isSome_congr
    {first second : PfdbEnt}
    (minPfn : first.minPfn = second.minPfn)
    (maxPfn : first.maxPfn = second.maxPfn)
    (db : List PfdbEnt) :
    (pfdbInsert first db).isSome = (pfdbInsert second db).isSome := by
  induction db with
  | nil =>
      rfl
  | cons ent rest inductionHypothesis =>
      have compared : pfdbEntCmp first ent = pfdbEntCmp second ent := by
        simp only [pfdbEntCmp, minPfn, maxPfn]
      simp only [pfdbInsert, compared]
      split
      · rfl
      · split_ifs
        · rfl
        · simpa only [Option.isSome_map] using inductionHypothesis
        · rfl

theorem pfdbAddLocked_balanced
    (layout : RegionLayout)
    (raw : RawMemory)
    (db : List PfdbEnt) :
    Balanced lockRank [] (pfdbAddLocked layout raw db)
      (pfdbAddAt layout raw db) := by
  have inserted : ∀ pool,
      (pfdbInsert (layout.ent pool) db).isSome =
        (pfdbInsert
          (layout.ent (initPool raw layout.nrPages layout.minPfn))
          db).isSome := by
    intro pool
    refine pfdbInsert_isSome_congr ?_ ?_ db <;> rfl
  have value :
      pfdbAddAt layout raw db =
        (if (pfdbInsert
              (layout.ent (initPool raw layout.nrPages layout.minPfn))
              db).isSome then some () else none).bind fun _ =>
          (addUsablePages layout.inUse (List.range layout.nrPages)
              (initPool raw layout.nrPages layout.minPfn)).bind fun pool =>
            (if decide
                (totalFreeBytes pool + layout.endAddr - layout.arrayPage =
                  layout.length) then some () else none).bind fun _ =>
              pfdbInsert (layout.ent pool) db := by
    rw [pfdbAddAt]
    cases addUsablePages layout.inUse (List.range layout.nrPages)
        (initPool raw layout.nrPages layout.minPfn) with
    | none =>
        split_ifs <;> rfl
    | some pool =>
        simp only [← inserted pool, decide_eq_true_eq, Option.bind_some]
        change (if _ then pfdbInsert (layout.ent pool) db else none) = _
        cases pfdbInsert (layout.ent pool) db <;> split_ifs <;> simp_all
  rw [value, pfdbAddLocked]
  refine Balanced.pureBind ?_
  refine Balanced.underLockAfter (by simp) (.pure _) ?_
  refine Balanced.bind (.orStop _) fun _ _ => ?_
  refine Balanced.bind
    (addUsablePagesLocked_balanced layout.minPfn layout.inUse _ _) ?_
  exact fun pool _ => Balanced.bind (.orStop _) fun _ _ => .orStop _

theorem pfdbDecPageUseCountLocked_balanced
    (minPfn : Nat)
    (pool : PageBuddy)
    (idx : Nat) :
    Balanced lockRank [] (pfdbDecPageUseCountLocked minPfn pool idx)
      (pfdbDecPageUseCount pool idx) := by
  have value :
      pfdbDecPageUseCount pool idx =
        (if decide (0 ≤ (pool.array idx).usecnt - 1) then some ()
          else none).bind fun _ =>
          let pool := pool.modify idx fun pf =>
            { pf with usecnt := (pool.array idx).usecnt - 1 }
          if (pool.array idx).usecnt = 0 then
            (if (pool.array idx).used && (pool.array idx).mapcnt == 0 then
                some ()
              else none).bind fun _ =>
              (enqueuePageToBuddyPool pool idx).bind fun result =>
                some (true, result)
          else some (false, pool) := by
    rw [pfdbDecPageUseCount]
    simp only [PageBuddy.modify_array_self, decide_eq_true_eq,
      Bool.and_eq_true, beq_iff_eq]
    by_cases negative : (pool.array idx).usecnt - 1 < 0
    · rw [if_pos negative, if_neg (Int32.not_le.mpr negative)]
      rfl
    · rw [if_neg negative, if_pos (Int32.not_lt.mp negative), Option.bind_some]
      split_ifs <;> simp [Option.map_eq_bind]
  rw [value, pfdbDecPageUseCountLocked]
  refine Balanced.bind (.orStop _) fun _ _ => Balanced.pureBind ?_
  by_cases zero : (pool.array idx).usecnt - 1 = 0
  · simp only [PageBuddy.modify_array_self, if_pos zero]
    refine Balanced.bind (.orStop _) fun _ _ => ?_
    exact Balanced.underLock (by simp) (.orStop _) fun result _ =>
      .pure (true, result)
  · simp only [PageBuddy.modify_array_self, if_neg zero]
    exact .pure _

theorem atPageFrameLocked_balanced
    {Result : Type}
    {operation : Nat → PageBuddy → Nat → OnPfdb (Result × PageBuddy)}
    {work : PageBuddy → Nat → Option (Result × PageBuddy)}
    (balanced :
      ∀ minPfn pool idx,
        Balanced lockRank [] (operation minPfn pool idx) (work pool idx))
    (pfn : Nat) :
    ∀ db : List PfdbEnt,
      Balanced lockRank [] (atPageFrameLocked operation pfn db)
        (atPageFrame work pfn db) := by
  intro db
  induction db with
  | nil =>
      exact .orStop none
  | cons ent rest inductionHypothesis =>
      rw [atPageFrameLocked, atPageFrame]
      split_ifs
      · have both :=
          Balanced.bind (balanced ent.minPfn ent.pagePool (pfn - ent.minPfn))
            fun both _ =>
              Balanced.pure
                (both.1, { ent with pagePool := both.2 } :: rest)
        rw [Option.map_eq_bind]
        exact both
      · have both :=
          Balanced.bind inductionHypothesis fun both _ =>
            Balanced.pure (both.1, ent :: both.2)
        rw [Option.map_eq_bind]
        exact both

/-! ## The operations that keep one variable for both locks -/

/-- A lookup and the work on the page it found. -/
theorem atLookup_eq_regionOf
    (operation : PageBuddy → Nat → Option (Except Errno Unit × PageBuddy))
    (pfn : Nat)
    (db : List PfdbEnt) :
    atLookup operation pfn db =
      match regionOf pfn db with
      | none => none
      | some none => some (.error .esrch, db)
      | some (some (earlier, ent, later)) =>
          (operation ent.pagePool (pfn - ent.minPfn)).map
            fun (result, pool) =>
              (result, earlier ++ { ent with pagePool := pool } :: later) := by
  induction db with
  | nil =>
      rfl
  | cons ent rest inductionHypothesis =>
      rw [atLookup, regionOf]
      cases pfdbEntCmp (lookupKey pfn) ent with
      | none =>
          rfl
      | some order =>
          simp only
          split_ifs
          · rfl
          · rw [inductionHypothesis]
            cases regionOf pfn rest with
            | none =>
                rfl
            | some found =>
                cases found with
                | none =>
                    rfl
                | some split =>
                    obtain ⟨earlier, region, later⟩ := split
                    simp only [Option.map_some]
                    cases operation region.pagePool (pfn - region.minPfn) <;>
                      rfl

/-- The regions around the one that was found. -/
theorem regionOf_shape
    {pfn : Nat} :
    ∀ {db earlier later : List PfdbEnt} {ent : PfdbEnt},
      regionOf pfn db = some (some (earlier, ent, later)) →
      db = earlier ++ ent :: later := by
  intro db
  induction db with
  | nil =>
      intro earlier later ent found
      cases found
  | cons head rest inductionHypothesis =>
      intro earlier later ent found
      rw [regionOf] at found
      split at found
      · cases found
      · split_ifs at found
        · cases found
          rfl
        · obtain ⟨inner, innerFound, shape⟩ := Option.map_eq_some_iff.mp found
          cases inner with
          | none =>
              cases shape
          | some split =>
              obtain ⟨before, region, after⟩ := split
              cases shape
              rw [inductionHypothesis innerFound]
              rfl

/-- `mark_page_frame_reserved` is its work under the lock and one more write. -/
theorem markPageReserved_eq
    (pool : PageBuddy)
    (idx : Nat) :
    markPageReserved pool idx =
      if (pool.array idx).reserved then none
      else
        (takeOffPool pool idx).map fun pool =>
          (.ok (), pool.modify idx fun pf => { pf with reserved := true }) := by
  rw [markPageReserved, takeOffPool]
  split_ifs
  · rfl
  · cases adjusted :
      adjustPageOrder (pool.queueDel (pool.array idx).order idx) idx 0 with
    | none =>
        simp [adjusted]
    | some linked =>
        simp only [adjusted]
        split_ifs <;> rfl

/-- The search of the tree finds a region that has the page. -/
def foundRegion (pfn : Nat) (db : List PfdbEnt) : Bool :=
  match regionOf pfn db with
  | some (some _) => true
  | _ => false

/-- The search of the tree finds a region where the page is reserved. -/
def foundReserved (pfn : Nat) (db : List PfdbEnt) : Bool :=
  match regionOf pfn db with
  | some (some (_, ent, _)) =>
      (ent.pagePool.array (pfn - ent.minPfn)).reserved
  | _ => false

theorem markPageFrameReservedLocked_runs
    (pfn : Nat)
    (db : List PfdbEnt) :
    Runs lockRank [] (markPageFrameReservedLocked pfn db)
      (markPageFrameReserved pfn db)
      fun _ sie => if foundRegion pfn db then false else sie := by
  intro cpu noneHeld ordered
  have above : ∀ outer ∈ cpu.held, lockRank outer < lockRank .db := by
    simp [noneHeld]
  obtain ⟨inDb, dbLocked, dbHeld, dbOrdered, dbSie⟩ :=
    spinlockLockDisableIntr_eq above ordered
  rw [noneHeld] at dbHeld
  rw [markPageFrameReserved, atLookup_eq_regionOf,
    markPageFrameReservedLocked, bind_of_some dbLocked, foundRegion]
  cases located : regionOf pfn db with
  | none =>
      exact bind_of_none rfl
  | some found =>
      rw [bind_of_some (show orStop (some found) inDb = some (found, inDb) from
        rfl)]
      cases found with
      | none =>
          refine ⟨{ inDb with sie := inDb.sie || cpu.sie, held := [] }, ?_, rfl,
            dbOrdered, ?_⟩
          · exact bind_of_some (spinlockUnlockRestoreIntr_eq dbHeld)
          · simp [dbSie]
      | some split =>
          obtain ⟨earlier, res, later⟩ := split
          simp only [markPageReserved_eq]
          cases isReserved :
            (res.pagePool.array (pfn - res.minPfn)).reserved with
          | true =>
              rfl
          | false =>
              have ran :=
                sharedVariable (rank_above_db res.minPfn)
                  (.orStop (takeOffPool res.pagePool (pfn - res.minPfn)))
                  dbHeld dbOrdered dbSie
                  fun pool =>
                    ((.ok () : Except Errno Unit),
                      earlier ++
                        { res with
                          pagePool :=
                            pool.modify (pfn - res.minPfn) fun pf =>
                              { pf with reserved := true } } :: later)
              cases taken : takeOffPool res.pagePool (pfn - res.minPfn) with
              | none =>
                  rw [taken] at ran
                  exact ran
              | some pool =>
                  rw [taken] at ran
                  exact ran

theorem unmarkPageFrameReservedLocked_runs
    (pfn : Nat)
    (db : List PfdbEnt) :
    Runs lockRank [] (unmarkPageFrameReservedLocked pfn db)
      (unmarkPageFrameReserved pfn db)
      fun _ sie => if foundReserved pfn db then false else sie := by
  intro cpu noneHeld ordered
  have above : ∀ outer ∈ cpu.held, lockRank outer < lockRank .db := by
    simp [noneHeld]
  obtain ⟨inDb, dbLocked, dbHeld, dbOrdered, dbSie⟩ :=
    spinlockLockDisableIntr_eq above ordered
  rw [noneHeld] at dbHeld
  have unlocked : ∀ result : Except Errno Unit × List PfdbEnt,
      (spinlockUnlockRestoreIntr .db cpu.sie >>= fun _ => pure result) inDb =
        some (result, { inDb with sie := inDb.sie || cpu.sie, held := [] }) :=
    fun result => bind_of_some (spinlockUnlockRestoreIntr_eq dbHeld)
  have restored : (inDb.sie || cpu.sie) = cpu.sie := by
    rw [dbSie, Bool.false_or]
  rw [unmarkPageFrameReserved, atLookup_eq_regionOf,
    unmarkPageFrameReservedLocked, bind_of_some dbLocked, foundReserved]
  cases located : regionOf pfn db with
  | none =>
      exact bind_of_none rfl
  | some found =>
      rw [bind_of_some (show orStop (some found) inDb = some (found, inDb) from
        rfl)]
      cases found with
      | none =>
          exact ⟨_, unlocked _, rfl, dbOrdered, restored⟩
      | some split =>
          obtain ⟨earlier, res, later⟩ := split
          have nodes := regionOf_shape located
          by_cases isReserved :
              (res.pagePool.array (pfn - res.minPfn)).reserved = true
          · by_cases idle :
                (res.pagePool.array (pfn - res.minPfn)).idle = true
            · have ran :=
                sharedVariable (rank_above_db res.minPfn)
                  (.orStop
                    ((enqueuePageToBuddyPool
                        (res.pagePool.modify (pfn - res.minPfn) fun pf =>
                          { pf with reserved := false })
                        (pfn - res.minPfn)).map fun pool =>
                      { pool with
                        availablePages := pool.availablePages + 1 }))
                  dbHeld dbOrdered dbSie
                  fun pool =>
                    ((.ok () : Except Errno Unit),
                      earlier ++ { res with pagePool := pool } :: later)
              simp only [unmarkPageReserved, isReserved, idle, if_true,
                Bool.not_true, Bool.false_eq_true, if_false]
              cases linked :
                enqueuePageToBuddyPool
                  (res.pagePool.modify (pfn - res.minPfn) fun pf =>
                    { pf with reserved := false })
                  (pfn - res.minPfn) with
              | none =>
                  rw [linked] at ran
                  exact ran
              | some pool =>
                  rw [linked] at ran
                  exact ran
            · simp only [unmarkPageReserved, isReserved, idle, if_true,
                Bool.not_true, Bool.false_eq_true, if_false, Option.map_none]
              exact bind_of_none rfl
          · simp only [unmarkPageReserved, isReserved, Bool.false_eq_true,
              if_false, Option.map_some, Bool.not_false, if_true, ← nodes]
            exact ⟨_, unlocked _, rfl, dbOrdered, restored⟩

/-- A page that is reserved was found. -/
theorem foundRegion_of_marked
    {pfn : Nat}
    {db after : List PfdbEnt}
    (marked : markPageFrameReserved pfn db = some (.ok (), after)) :
    foundRegion pfn db = true := by
  rw [markPageFrameReserved, atLookup_eq_regionOf] at marked
  rw [foundRegion]
  cases located : regionOf pfn db with
  | none =>
      rw [located] at marked
      cases marked
  | some found =>
      cases found with
      | none =>
          rw [located] at marked
          cases marked
      | some split =>
          rfl

/-- A page whose reservation ends was found reserved. -/
theorem foundReserved_of_unmarked
    {pfn : Nat}
    {db after : List PfdbEnt}
    (unmarked : unmarkPageFrameReserved pfn db = some (.ok (), after)) :
    foundReserved pfn db = true := by
  rw [unmarkPageFrameReserved, atLookup_eq_regionOf] at unmarked
  rw [foundReserved]
  cases located : regionOf pfn db with
  | none =>
      rw [located] at unmarked
      cases unmarked
  | some found =>
      cases found with
      | none =>
          rw [located] at unmarked
          cases unmarked
      | some split =>
          obtain ⟨earlier, res, later⟩ := split
          rw [located] at unmarked
          obtain ⟨both, operated, shape⟩ := Option.map_eq_some_iff.mp unmarked
          by_contra notReserved
          simp only [unmarkPageReserved, notReserved, if_false] at operated
          cases operated
          cases shape

/-- A range of pages each of which leaves the interrupts disabled. -/
theorem overPagesLocked_runs
    {operation :
      Nat → List PfdbEnt → OnPfdb (Except Errno Unit × List PfdbEnt)}
    {work : Nat → List PfdbEnt → Option (Except Errno Unit × List PfdbEnt)}
    {nested : Nat → List PfdbEnt → Bool}
    (runs :
      ∀ pfn db,
        Runs lockRank [] (operation pfn db) (work pfn db)
          fun _ sie => if nested pfn db then false else sie)
    (succeeded :
      ∀ {pfn db after},
        work pfn db = some (.ok (), after) → nested pfn db = true) :
    ∀ (pages pfn : Nat) (db : List PfdbEnt),
      Runs lockRank [] (overPagesLocked operation pfn pages db)
        (overPages work pfn pages db)
        fun _ sie => if pages = 0 then sie else false := by
  intro pages
  induction pages with
  | zero =>
      intro pfn db
      exact Balanced.pure db
  | succ pages inductionHypothesis =>
      intro pfn db
      have value :
          overPages work pfn (pages + 1) db =
            (work pfn db).bind fun (rc, db) =>
              (if rc.isOk then some () else none).bind fun _ =>
                overPages work (pfn + 1) pages db := by
        rw [overPages]
        cases work pfn db with
        | none => rfl
        | some both =>
            obtain ⟨rc, middle⟩ := both
            cases rc <;> rfl
      rw [value]
      have rest : ∀ both : Except Errno Unit × List PfdbEnt,
          work pfn db = some both →
          Runs lockRank []
            (do
              kassert both.1.isOk
              overPagesLocked operation (pfn + 1) pages both.2)
            ((if both.1.isOk then some () else none).bind fun _ =>
              overPages work (pfn + 1) pages both.2)
            fun _ sie => if pages = 0 then sie else false := by
        intro both _
        exact Runs.bind (Balanced.orStop _)
          (fun _ _ => inductionHypothesis (pfn + 1) both.2)
          fun _ _ _ _ _ => rfl
      refine Runs.bind (runs pfn db) rest ?_
      · rintro ⟨rc, middle⟩ worked last returned sie
        cases rc with
        | error code =>
            cases returned
        | ok done =>
            simp only [succeeded worked, if_true, ite_self,
              Nat.add_one_ne_zero, if_false]

/-! ## All operations -/

/-- The operations of the page frame database. -/
inductive PfdbOperation where
  | add (layout : RegionLayout) (raw : RawMemory)
  | remove (place : Nat)
  | free
  | dequeue (order : Nat) (usage : PageUsage)
  | markPage (pfn : Nat)
  | unmarkPage (pfn : Nat)
  | markRange (range : PhysRange)
  | unmarkRange (range : PhysRange)
  | decUseCount (pfn : Nat)
  | obtainStat
  | lookup (pfn : Nat)

/-- What the operations return. -/
inductive PfdbResult where
  | done
  | code (rc : Except Errno Unit)
  | page (rc : Except Errno Nat)
  | last (rc : Bool)
  | stat (stat : PfdbStat)
  | frame (rc : Except Errno PageFrame)

/-- An operation with its locks: what it returns, and the database after it. -/
def PfdbOperation.run
    (db : List PfdbEnt) :
    PfdbOperation → OnPfdb (PfdbResult × List PfdbEnt)
  | .add layout raw => do
      let db ← pfdbAddLocked layout raw db
      pure (.done, db)
  | .remove place => do
      let (rc, db) ← pfdbRemoveLocked place db
      pure (.code rc, db)
  | .free => do
      let db ← pfdbFreeLocked db
      pure (.done, db)
  | .dequeue order usage => do
      let (rc, db) ← pfdbBuddyDequeueLocked order usage db
      pure (.page rc, db)
  | .markPage pfn => do
      let (rc, db) ← markPageFrameReservedLocked pfn db
      pure (.code rc, db)
  | .unmarkPage pfn => do
      let (rc, db) ← unmarkPageFrameReservedLocked pfn db
      pure (.code rc, db)
  | .markRange range => do
      let db ← pfdbMarkPhysRangeReservedLocked range db
      pure (.done, db)
  | .unmarkRange range => do
      let db ← pfdbUnmarkPhysRangeReservedLocked range db
      pure (.done, db)
  | .decUseCount pfn => do
      let (last, db) ← atPageFrameLocked pfdbDecPageUseCountLocked pfn db
      pure (.last last, db)
  | .obtainStat => do
      let stat ← kcomObtainPfdbStatLocked db
      pure (.stat stat, db)
  | .lookup pfn => do
      let rc ← pfnToPageFrameLocked pfn db
      pure (.frame rc, db)

/-- The work of an operation without the locks. -/
def PfdbOperation.work
    (db : List PfdbEnt) :
    PfdbOperation → Option (PfdbResult × List PfdbEnt)
  | .add layout raw =>
      (pfdbAddAt layout raw db).map fun db => (.done, db)
  | .remove place =>
      db[place]?.map fun ent =>
        if allFree ent then (.code (.ok ()), db.eraseIdx place)
        else (.code (.error .ebusy), db)
  | .free => some (.done, db.filter fun ent => !allFree ent)
  | .dequeue order usage =>
      (pfdbBuddyDequeue order usage db).map fun (rc, db) => (.page rc, db)
  | .markPage pfn =>
      (markPageFrameReserved pfn db).map fun (rc, db) => (.code rc, db)
  | .unmarkPage pfn =>
      (unmarkPageFrameReserved pfn db).map fun (rc, db) => (.code rc, db)
  | .markRange range =>
      (pfdbMarkPhysRangeReserved range db).map fun db => (.done, db)
  | .unmarkRange range =>
      (pfdbUnmarkPhysRangeReserved range db).map fun db => (.done, db)
  | .decUseCount pfn =>
      (atPageFrame pfdbDecPageUseCount pfn db).map fun (last, db) =>
        (.last last, db)
  | .obtainStat => some (.stat (db.foldl PfdbStat.add .zero), db)
  | .lookup pfn =>
      (regionOf pfn db).map fun
        | none => (.frame (.error .esrch), db)
        | some (_, res, _) =>
            (.frame (.ok (res.pagePool.array (pfn - res.minPfn))), db)

/--
The operation takes the lock of a pool inside that of the database and saves
to one variable.
-/
def PfdbOperation.sharesVariable
    (db : List PfdbEnt) :
    PfdbOperation → Bool
  | .markPage pfn => foundRegion pfn db
  | .unmarkPage pfn => foundReserved pfn db
  | .markRange range => 0 < range.pages
  | .unmarkRange range => 0 < range.pages
  | _ => false

/-- Every operation does its work and leaves its locks. -/
theorem PfdbOperation.run_runs
    (operation : PfdbOperation)
    (db : List PfdbEnt) :
    Runs lockRank [] (operation.run db) (operation.work db)
      fun _ sie => if operation.sharesVariable db then false else sie := by
  cases operation with
  | add layout raw =>
      exact Runs.mapResult (pfdbAddLocked_balanced layout raw db) _
  | remove place =>
      have removed : ∀ ent,
          Balanced lockRank []
            (do
              let iflags ← spinlockLockDisableIntr PfdbLock.db
              let result ← removePfdbEntCommonLocked ent
              spinlockUnlockRestoreIntr .db iflags
              pure
                (result,
                  match result with
                  | .ok _ => db.eraseIdx place
                  | .error _ => db))
            (some
              (if allFree ent then (.ok (), db.eraseIdx place)
                else (.error .ebusy, db))) := by
        intro ent
        refine Balanced.underLockAfter (by simp)
          (removePfdbEntCommonLocked_balanced ent) ?_
        split_ifs
        · exact .pure _
        · exact .pure _
      have whole :=
        Runs.mapResult
          (Balanced.bind (.orStop db[place]?) fun ent _ => removed ent)
          fun both : Except Errno Unit × List PfdbEnt =>
            (PfdbResult.code both.1, both.2)
      have value :
          (PfdbOperation.remove place).work db =
            (db[place]?.bind fun ent =>
              some
                (if allFree ent then (.ok (), db.eraseIdx place)
                  else (.error .ebusy, db))).map
              fun both : Except Errno Unit × List PfdbEnt =>
                (PfdbResult.code both.1, both.2) := by
        rw [PfdbOperation.work]
        cases db[place]? with
        | none => rfl
        | some ent =>
            simp only [Option.map_some, Option.bind_some]
            split_ifs <;> rfl
      rw [value]
      exact whole
  | free =>
      exact Runs.mapResult
        (Balanced.lockedSection (by simp) (freeRegions_balanced db)) _
  | dequeue order usage =>
      exact Runs.mapResult
        (Balanced.lockedSection (by simp)
          (dequeueRegions_balanced order usage db)) _
  | markPage pfn =>
      exact Runs.mapResult (markPageFrameReservedLocked_runs pfn db) _
  | unmarkPage pfn =>
      exact Runs.mapResult (unmarkPageFrameReservedLocked_runs pfn db) _
  | markRange range =>
      have runs :=
        overPagesLocked_runs markPageFrameReservedLocked_runs
          foundRegion_of_marked range.pages range.firstPfn db
      refine (Runs.mapResult runs _).leaveCongr fun sie => ?_
      cases pages : range.pages <;> simp [sharesVariable, pages]
  | unmarkRange range =>
      have runs :=
        overPagesLocked_runs unmarkPageFrameReservedLocked_runs
          foundReserved_of_unmarked range.pages range.firstPfn db
      refine (Runs.mapResult runs _).leaveCongr fun sie => ?_
      cases pages : range.pages <;> simp [sharesVariable, pages]
  | decUseCount pfn =>
      exact Runs.mapResult
        (atPageFrameLocked_balanced pfdbDecPageUseCountLocked_balanced pfn db)
        _
  | obtainStat =>
      exact Runs.mapResult (Balanced.lockedSection (by simp) (.pure _)) _
  | lookup pfn =>
      have balanced :
          Balanced lockRank [] (pfnToPageFrameLocked pfn db)
            ((regionOf pfn db).map fun
              | none => (.error .esrch : Except Errno PageFrame)
              | some (_, res, _) =>
                  .ok (res.pagePool.array (pfn - res.minPfn))) :=
        Balanced.lockedSection (by simp) (.orStop _)
      have value :
          (PfdbOperation.lookup pfn).work db =
            ((regionOf pfn db).map fun
              | none => (.error .esrch : Except Errno PageFrame)
              | some (_, res, _) =>
                  .ok (res.pagePool.array (pfn - res.minPfn))).map
              fun rc => (PfdbResult.frame rc, db) := by
        rw [PfdbOperation.work, Option.map_map]
        congr 1
        funext found
        cases found <;> rfl
      rw [value]
      exact Runs.mapResult balanced _

/-- An operation with its locks does what it does without them. -/
theorem PfdbOperation.run_work
    (operation : PfdbOperation)
    (db : List PfdbEnt)
    (sie : Bool) :
    (operation.run db (.entry sie)).map Prod.fst = operation.work db :=
  (operation.run_runs db).value rfl (by simp [Cpu.Ordered, Cpu.entry])

/--
How an operation that was entered without locks has to leave the CPU: without
locks, each lock taken inside locks of lower ranks only, and with the
interrupts as they were.
-/
structure LocksRight (sie : Bool) (after : Cpu PfdbLock) : Prop where
  free : after.held = []
  ordered : after.Ordered lockRank
  interrupts : after.sie = sie

/--
Every operation on every database that returns leaves the locks and the
interrupts right, exactly when the interrupts were disabled before it or it
does not save to one variable for both locks.
-/
theorem locksRight_iff
    (operation : PfdbOperation)
    (db : List PfdbEnt)
    (sie : Bool)
    {result : PfdbResult × List PfdbEnt}
    {after : Cpu PfdbLock}
    (returned : operation.run db (.entry sie) = some (result, after)) :
    LocksRight sie after ↔
      sie = false ∨ operation.sharesVariable db = false := by
  obtain ⟨-, held, ordered, left⟩ :=
    (operation.run_runs db).returned rfl (by simp [Cpu.Ordered, Cpu.entry])
      returned
  have interrupts :
      after.sie = if operation.sharesVariable db then false else sie := left
  constructor
  · intro right
    have restored := right.interrupts
    rw [interrupts] at restored
    by_cases shares : operation.sharesVariable db = true
    · rw [if_pos shares] at restored
      exact .inl restored.symm
    · exact .inr (Bool.eq_false_iff.mpr shares)
  · rintro (rfl | shares)
    · exact ⟨held, ordered, by rw [interrupts, ite_self]⟩
    · exact ⟨held, ordered, by rw [interrupts, shares]; rfl⟩

/-- The database with the eight pages. -/
def eightPagesDb : List PfdbEnt :=
  (pfdbAdd ⟨200, 400⟩ eightPages dirtyMemory []).getD []

/-- An allocation leaves enabled interrupts enabled. -/
theorem locksRight_dequeue :
    ∃ result after,
      (PfdbOperation.dequeue 0 .kern).run eightPagesDb (.entry true) =
          some (result, after) ∧
        LocksRight true after := by
  have returns :
      ((PfdbOperation.dequeue 0 .kern).run eightPagesDb
        (.entry true)).isSome = true := by
    decide +kernel
  obtain ⟨⟨result, after⟩, returned⟩ := Option.isSome_iff_exists.mp returns
  exact ⟨result, after, returned,
    (locksRight_iff (.dequeue 0 .kern) eightPagesDb true returned).mpr
      (.inr rfl)⟩

/-- A reservation with the interrupts enabled returns with them disabled. -/
theorem reserving_disables_interrupts :
    ((PfdbOperation.markRange wholeBlock).run eightPagesDb
        (.entry true)).map (fun ran => (ran.2.held, ran.2.sie)) =
      some ([], false) := by
  decide +kernel

end RiscvWorkshop.Pfdb
