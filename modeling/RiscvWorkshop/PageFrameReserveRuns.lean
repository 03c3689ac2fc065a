import Mathlib
import RiscvWorkshop.PageFrameReserve

namespace RiscvWorkshop.Pfdb

open BuddyTiling

/-!
# Reserved ranges of every run

A range of free pages is reserved page by page in ascending order.  Behind a
reserved page the next free page always starts a block, so the whole range
comes off the lists exactly when its first page starts a block.
-/

/-! ## Calls -/

/-- The calls of a run in which ranges are reserved and given back. -/
inductive ReserveCall where
  | region (call : RegionCall)
  | mark (range : PhysRange)
  | unmark (range : PhysRange)

/-- One call; `none` when an assertion stops it. -/
def reserveNext (state : PfdbState) : ReserveCall → Option PfdbState
  | .region call => regionNext state call
  | .mark range =>
      (pfdbMarkPhysRangeReserved range state.db).map fun db => { state with db }
  | .unmark range =>
      (pfdbUnmarkPhysRangeReserved range state.db).map
        fun db => { state with db }

/-- A range has bytes of a page. -/
def PhysRange.Covers (range : PhysRange) (pfn : Nat) : Prop :=
  truncateAlign range.start pageSize ≤ pfn * pageSize ∧
    pfn * pageSize < roundupAlign range.end pageSize

/-- A page of the region lies in a free block. -/
def PfdbEnt.Free (ent : PfdbEnt) (pfn : Nat) : Prop :=
  ent.Holds pfn ∧
    ∃ block ∈ ent.pagePool.freeBlocks, block.Contains (pfn - ent.minPfn)

/-- The pages of a range are free pages of one region. -/
def PfdbEnt.RangeFree (ent : PfdbEnt) (range : PhysRange) : Prop :=
  ∀ pfn, range.Covers pfn → ent.Free pfn

/--
The first page of a range starts a free block, and the range ends before the
last page of the region, which no lookup reaches.
-/
structure PfdbEnt.RangeHeaded
    (ent : PfdbEnt)
    (range : PhysRange) : Prop where
  head :
    ∀ pfn, range.Covers pfn →
      ∃ block ∈ ent.pagePool.freeBlocks,
        ent.minPfn + block.start = range.firstPfn
  notLast : ∀ pfn, range.Covers pfn → pfn + 1 ≠ ent.maxPfn

/-- A range is reserved only while it is free and can be cut out. -/
def ReserveFits (state : PfdbState) : ReserveCall → Prop
  | .mark range =>
      ∃ ent ∈ state.db, ent.RangeFree range ∧ ent.RangeHeaded range
  | _ => True

/-- A call that neither gives pages of a range back nor removes a region. -/
def LeavesReserved
    (range : PhysRange)
    (state : PfdbState) : ReserveCall → Prop
  | .region (.remove _) => False
  | .unmark other => ∀ pfn, range.Covers pfn → ¬ other.Covers pfn
  | call => ReserveFits state call

/-! ## What the claim asks of a reservation -/

/-- A page of some region lies in a free block. -/
def FreePage (db : List PfdbEnt) (pfn : Nat) : Prop :=
  ∃ ent ∈ db, ent.Free pfn

/-- A page of some region is reserved. -/
def ReservedPage (db : List PfdbEnt) (pfn : Nat) : Prop :=
  ∃ ent ∈ db,
    ent.Holds pfn ∧
      (ent.pagePool.array (pfn - ent.minPfn)).reserved = true

/-- The pages of a block that a caller holds. -/
def Allocation.Has (held : Allocation) (pfn : Nat) : Prop :=
  held.pfn ≤ pfn ∧ pfn < held.pfn + 2 ^ held.order

/-- A region as it is found again, with the same free blocks. -/
structure SameFree (before after : PfdbEnt) : Prop where
  minPfn : after.minPfn = before.minPfn
  maxPfn : after.maxPfn = before.maxPfn
  free :
    ∀ block,
      block ∈ after.pagePool.freeBlocks ↔ block ∈ before.pagePool.freeBlocks

/-- What a reservation of a range leaves, and what its end restores. -/
structure RangeReserved
    (state : PfdbState)
    (range : PhysRange)
    (after : List PfdbEnt) : Prop where
  taken :
    ∀ pfn, FreePage after pfn ↔ FreePage state.db pfn ∧ ¬ range.Covers pfn
  counts :
    ∀ ent ∈ after, ∀ order < pagePoolMaxOrder,
      ent.pagePool.freeNr order = (ent.pagePool.pageList order).length
  available :
    ∀ ent ∈ after,
      ent.pagePool.availablePages =
        ((Finset.range ent.pagePool.nrPages).filter
          ent.pagePool.Unreserved).card
  kept :
    ∀ calls later,
      Run (Guarded (LeavesReserved range) (StepOf reserveNext))
          ⟨after, state.allocated⟩ calls later →
        ∀ held ∈ later.allocated, ∀ pfn, range.Covers pfn → ¬ held.Has pfn
  restored :
    ∃ restored,
      pfdbUnmarkPhysRangeReserved range after = some restored ∧
        List.Forall₂ SameFree state.db restored

/-- `pfdb_mark_phys_range_reserved` takes a range and its end restores it. -/
def ReservationRight (state : PfdbState) (range : PhysRange) : Prop :=
  ∃ after,
    pfdbMarkPhysRangeReserved range state.db = some after ∧
      RangeReserved state range after

/-! ## The pages of a range -/

theorem PhysRange.covers_of_page
    {range : PhysRange}
    {pfn : Nat}
    (first : range.firstPfn ≤ pfn)
    (last : pfn < range.firstPfn + range.pages) :
    range.Covers pfn := by
  have size : pageSize = 4096 := rfl
  simp only [firstPfn, pages, Covers, truncateAlign, roundupAlign, pageShift,
    Nat.shiftRight_eq_div_pow, size] at *
  omega

/-- The loop goes through the pages of a range that does not wrap around. -/
theorem PhysRange.covers_iff
    {range : PhysRange}
    (small : ∀ pfn, range.Covers pfn → pfn < 2 ^ 31)
    {pfn : Nat} :
    range.Covers pfn ↔
      range.firstPfn ≤ pfn ∧ pfn < range.firstPfn + range.pages := by
  refine ⟨fun covers => ?_, fun page => covers_of_page page.1 page.2⟩
  have last := small ((range.end + 4095) / 4096 - 1)
  have size : pageSize = 4096 := rfl
  simp only [firstPfn, pages, Covers, truncateAlign, roundupAlign, pageShift,
    Nat.shiftRight_eq_div_pow, size] at *
  omega

/-! ## One page of the database -/

/-- The invariant of the runs in which ranges are reserved. -/
structure DbReady (state : PfdbState) : Prop where
  sound : PfdbSound state
  small : SmallRegions state
  pools :
    ∀ ent ∈ state.db,
      PoolReady ent.pagePool (ent.liveBlocks state.allocated)

theorem DbReady.sorted
    {state : PfdbState}
    (ready : DbReady state) :
    RegionsSorted state.db :=
  ⟨ready.sound.regions, ready.sound.ordered, ready.small⟩

/-- A page of a region has its place in the page frame array. -/
theorem DbReady.inRegion
    {state : PfdbState}
    {ent : PfdbEnt}
    {pfn : Nat}
    (ready : DbReady state)
    (member : ent ∈ state.db)
    (holds : ent.Holds pfn) :
    pfn - ent.minPfn < ent.pagePool.nrPages := by
  have size := (ready.sound.ents ent member).nrPages
  rw [PfdbEnt.Holds] at holds
  omega

/-- The page frame numbers of a region are small words. -/
theorem DbReady.pfn_lt
    {state : PfdbState}
    {ent : PfdbEnt}
    {pfn : Nat}
    (ready : DbReady state)
    (member : ent ∈ state.db)
    (holds : ent.Holds pfn) :
    pfn < 2 ^ 31 :=
  lt_trans holds.2 (ready.small ent member)

theorem lt_pfnLimit_of_small
    {pfn : Nat}
    (small : pfn < 2 ^ 31) :
    pfn < pfnLimit := by
  have limit : pfnLimit = 18446744073709551616 := rfl
  omega

section Pages

variable {earlier later : List PfdbEnt}
variable {allocated : List Allocation}
variable {ent : PfdbEnt}
variable {pfn : Nat}

/-- A reservation of one page, or its end, keeps the database in order. -/
theorem DbReady.withPool
    {pool : PageBuddy}
    {idx : Nat}
    {value : Bool}
    (ready : DbReady ⟨earlier ++ ent :: later, allocated⟩)
    (holds : ent.Holds pfn)
    (poolReady : PoolReady pool (ent.liveBlocks allocated))
    (set : ReservationSet ent.pagePool pool idx value)
    (available :
      pool.availablePages =
        ((Finset.range pool.nrPages).filter pool.Unreserved).card) :
    DbReady ⟨earlier ++ { ent with pagePool := pool } :: later, allocated⟩ := by
  have member : ent ∈ earlier ++ ent :: later := by simp
  have before := ready.sound.ents ent member
  have replaced :
      PoolReplaced ent pool (earlier ++ ent :: later)
        (earlier ++ { ent with pagePool := pool } :: later) :=
    ⟨earlier, later, rfl, rfl⟩
  refine ⟨ready.sound.replace replaced holds ?_ (fun _ _ => rfl)
    fun held isHeld => .inr isHeld, ?_, ?_⟩
  · exact ⟨poolReady.sound, set.nrPages.trans before.nrPages,
      fun idx => (set.pfn idx).trans (before.pfn idx), available⟩
  · intro other otherMember
    rcases replaced.mem_after ready.sound.regions holds otherMember with
      rfl | ⟨older, -⟩
    · exact ready.small ent member
    · exact ready.small other older
  · intro other otherMember
    rcases replaced.mem_after ready.sound.regions holds otherMember with
      rfl | ⟨older, -⟩
    · exact poolReady
    · exact ready.pools other older

/-- The first page of a free block is reserved. -/
theorem DbReady.markPage
    {order : Nat}
    (ready : DbReady ⟨earlier ++ ent :: later, allocated⟩)
    (holds : ent.Holds pfn)
    (notLast : pfn + 1 ≠ ent.maxPfn)
    (listed :
      (⟨pfn - ent.minPfn, order⟩ : Block) ∈ ent.pagePool.freeBlocks) :
    ∃ pool,
      markPageFrameReserved pfn (earlier ++ ent :: later) =
          some
            (.ok (), earlier ++ { ent with pagePool := pool } :: later) ∧
        ReservationSet ent.pagePool pool (pfn - ent.minPfn) true ∧
        DbReady
          ⟨earlier ++ { ent with pagePool := pool } :: later, allocated⟩ := by
  have member : ent ∈ earlier ++ ent :: later := by simp
  have poolReady := ready.pools ent member
  have inRegion := ready.inRegion member holds
  have limit := lt_pfnLimit_of_small (ready.pfn_lt member holds)
  have unreserved : ent.pagePool.Unreserved (pfn - ent.minPfn) :=
    ((poolReady.free_iff inRegion).mp
      ⟨_, listed, Block.contains_start _⟩).1
  obtain ⟨pool, marked, markedReady, set, available⟩ := poolReady.mark listed
  refine ⟨pool, ?_, set, ready.withPool holds markedReady set ?_⟩
  · rw [markPageFrameReserved, atLookup_eq limit holds ready.sorted,
      if_neg notLast, marked]
    rfl
  · rw [available, set.card_of_reserved inRegion unreserved,
      (ready.sound.ents ent member).available]

/-- A reserved page that is idle is given back. -/
theorem DbReady.unmarkPage
    (ready : DbReady ⟨earlier ++ ent :: later, allocated⟩)
    (holds : ent.Holds pfn)
    (notLast : pfn + 1 ≠ ent.maxPfn)
    (isReserved :
      (ent.pagePool.array (pfn - ent.minPfn)).reserved = true)
    (idle : (ent.pagePool.array (pfn - ent.minPfn)).idle = true) :
    ∃ pool,
      unmarkPageFrameReserved pfn (earlier ++ ent :: later) =
          some
            (.ok (), earlier ++ { ent with pagePool := pool } :: later) ∧
        ReservationSet ent.pagePool pool (pfn - ent.minPfn) false ∧
        DbReady
          ⟨earlier ++ { ent with pagePool := pool } :: later, allocated⟩ := by
  have member : ent ∈ earlier ++ ent :: later := by simp
  have inRegion := ready.inRegion member holds
  have limit := lt_pfnLimit_of_small (ready.pfn_lt member holds)
  obtain ⟨pool, unmarked, unmarkedReady, set, available⟩ :=
    (ready.pools ent member).unmark inRegion isReserved idle
  refine ⟨pool, ?_, set, ready.withPool holds unmarkedReady set ?_⟩
  · rw [unmarkPageFrameReserved, atLookup_eq limit holds ready.sorted,
      if_neg notLast, unmarked]
    rfl
  · rw [available, set.card_of_unreserved inRegion isReserved,
      (ready.sound.ents ent member).available]

/-! ## The pages of a range one by one -/

/-- The pool of a region after a range of its pages was reserved or given back. -/
structure RangeSet
    (ent : PfdbEnt)
    (pool : PageBuddy)
    (pfn pages : Nat)
    (value : Bool) : Prop where
  nrPages : pool.nrPages = ent.pagePool.nrPages
  idle : ∀ idx, (pool.array idx).idle = (ent.pagePool.array idx).idle
  reserved :
    ∀ idx,
      (pool.array idx).reserved =
        if pfn ≤ ent.minPfn + idx ∧ ent.minPfn + idx < pfn + pages then value
        else (ent.pagePool.array idx).reserved

theorem RangeSet.nil
    (ent : PfdbEnt)
    (pfn : Nat)
    (value : Bool) :
    RangeSet ent ent.pagePool pfn 0 value := by
  refine ⟨rfl, fun _ => rfl, fun idx => ?_⟩
  rw [if_neg (by omega)]

/-- The first page of a range and the rest of it. -/
theorem RangeSet.cons
    {pool final : PageBuddy}
    {pages : Nat}
    {value : Bool}
    (holds : ent.Holds pfn)
    (first : ReservationSet ent.pagePool pool (pfn - ent.minPfn) value)
    (rest :
      RangeSet { ent with pagePool := pool } final (pfn + 1) pages value) :
    RangeSet ent final pfn (pages + 1) value := by
  refine ⟨rest.nrPages.trans first.nrPages,
    fun idx => (rest.idle idx).trans (first.idle idx), fun idx => ?_⟩
  have lower := holds.1
  rw [rest.reserved idx]
  simp only [first.reserved]
  by_cases isFirst : idx = pfn - ent.minPfn
  · subst isFirst
    rw [if_neg (by omega), if_pos rfl, if_pos (by omega)]
  · by_cases inRest : pfn + 1 ≤ ent.minPfn + idx ∧
        ent.minPfn + idx < pfn + 1 + pages
    · rw [if_pos inRest, if_pos (by omega)]
    · rw [if_neg inRest, if_neg isFirst, if_neg (by omega)]

/-- Behind a reserved page, a free page starts its block. -/
theorem PoolReady.head_behind_reserved
    {pool : PageBuddy}
    {live : List Block}
    {idx : Nat}
    (ready : PoolReady pool live)
    (isReserved : (pool.array idx).reserved = true)
    (free : ∃ block ∈ pool.freeBlocks, block.Contains (idx + 1)) :
    ∃ order, (⟨idx + 1, order⟩ : Block) ∈ pool.freeBlocks := by
  obtain ⟨⟨start, order⟩, listed, contains⟩ := free
  have notBefore : ¬ (⟨start, order⟩ : Block).Contains idx := by
    intro inBlock
    have unreserved : pool.Unreserved idx :=
      ready.sound.tiles.available_of_member
        (show (⟨start, order⟩ : Block) ∈ [] ++ (pool.freeBlocks ++ live) by
          simp [listed]) inBlock
    rw [PageBuddy.Unreserved, isReserved] at unreserved
    cases unreserved
  have starts : start = idx + 1 := by
    simp only [Block.Contains] at contains notBefore
    omega
  exact ⟨order, starts ▸ listed⟩

/-- Reserving a range from the first page of a free block on. -/
theorem DbReady.markPages :
    ∀ {pages pfn : Nat} {ent : PfdbEnt},
      DbReady ⟨earlier ++ ent :: later, allocated⟩ →
      (∀ page, pfn ≤ page → page < pfn + pages →
        ent.Free page ∧ page + 1 ≠ ent.maxPfn) →
      (0 < pages →
        ∃ order,
          (⟨pfn - ent.minPfn, order⟩ : Block) ∈ ent.pagePool.freeBlocks) →
      ∃ pool,
        overPages markPageFrameReserved pfn pages
            (earlier ++ ent :: later) =
          some (earlier ++ { ent with pagePool := pool } :: later) ∧
        RangeSet ent pool pfn pages true ∧
        DbReady
          ⟨earlier ++ { ent with pagePool := pool } :: later, allocated⟩ := by
  intro pages
  induction pages with
  | zero =>
      intro pfn ent ready _ _
      exact ⟨ent.pagePool, rfl, .nil ent pfn true, ready⟩
  | succ pages inductionHypothesis =>
      intro pfn ent ready free head
      obtain ⟨order, listed⟩ := head (by omega)
      obtain ⟨⟨holds, -⟩, notLast⟩ := free pfn (by omega) (by omega)
      obtain ⟨pool, marked, set, markedReady⟩ :=
        ready.markPage holds notLast listed
      have member : ent ∈ earlier ++ ent :: later := by simp
      have markedMember : { ent with pagePool := pool } ∈
          earlier ++ { ent with pagePool := pool } :: later := by simp
      have poolReady := markedReady.pools _ markedMember
      -- the other pages stay neither reserved nor handed out
      have restFree : ∀ page, pfn + 1 ≤ page → page < pfn + 1 + pages →
          PfdbEnt.Free { ent with pagePool := pool } page ∧
            page + 1 ≠ ent.maxPfn := by
        intro page lower upper
        obtain ⟨⟨pageHolds, pageFree⟩, pageNotLast⟩ :=
          free page (by omega) (by omega)
        have inRegion := ready.inRegion member pageHolds
        obtain ⟨unreserved, notLive⟩ :=
          ((ready.pools ent member).free_iff inRegion).mp pageFree
        have different : page - ent.minPfn ≠ pfn - ent.minPfn := by
          have := holds.1
          omega
        refine ⟨⟨pageHolds, (poolReady.free_iff ?_).mpr ⟨?_, notLive⟩⟩,
          pageNotLast⟩
        · rw [set.nrPages]
          exact inRegion
        · simp only [PageBuddy.Unreserved, set.reserved, if_neg different]
          exact unreserved
      have restHead : 0 < pages →
          ∃ order,
            (⟨pfn + 1 - ent.minPfn, order⟩ : Block) ∈ pool.freeBlocks := by
        intro more
        have nextIdx : pfn + 1 - ent.minPfn = pfn - ent.minPfn + 1 := by
          have := holds.1
          omega
        rw [nextIdx]
        refine poolReady.head_behind_reserved ?_ ?_
        · simp [set.reserved]
        · rw [← nextIdx]
          exact (restFree (pfn + 1) (by omega) (by omega)).1.2
      obtain ⟨final, executed, rest, finalReady⟩ :=
        inductionHypothesis markedReady restFree restHead
      refine ⟨final, ?_, .cons holds set rest, finalReady⟩
      rw [overPages, marked]
      exact executed

/-- Giving a range of idle reserved pages back. -/
theorem DbReady.unmarkPages :
    ∀ {pages pfn : Nat} {ent : PfdbEnt},
      DbReady ⟨earlier ++ ent :: later, allocated⟩ →
      (∀ page, pfn ≤ page → page < pfn + pages →
        (ent.Holds page ∧ page + 1 ≠ ent.maxPfn) ∧
          (ent.pagePool.array (page - ent.minPfn)).reserved = true ∧
          (ent.pagePool.array (page - ent.minPfn)).idle = true) →
      ∃ pool,
        overPages unmarkPageFrameReserved pfn pages
            (earlier ++ ent :: later) =
          some (earlier ++ { ent with pagePool := pool } :: later) ∧
        RangeSet ent pool pfn pages false ∧
        DbReady
          ⟨earlier ++ { ent with pagePool := pool } :: later, allocated⟩ := by
  intro pages
  induction pages with
  | zero =>
      intro pfn ent ready _
      exact ⟨ent.pagePool, rfl, .nil ent pfn false, ready⟩
  | succ pages inductionHypothesis =>
      intro pfn ent ready resting
      obtain ⟨⟨holds, notLast⟩, isReserved, idle⟩ :=
        resting pfn (by omega) (by omega)
      obtain ⟨pool, unmarked, set, unmarkedReady⟩ :=
        ready.unmarkPage holds notLast isReserved idle
      have restResting : ∀ page, pfn + 1 ≤ page → page < pfn + 1 + pages →
          (ent.Holds page ∧ page + 1 ≠ ent.maxPfn) ∧
            (pool.array (page - ent.minPfn)).reserved = true ∧
            (pool.array (page - ent.minPfn)).idle = true := by
        intro page lower upper
        obtain ⟨place, pageReserved, pageIdle⟩ :=
          resting page (by omega) (by omega)
        have different : page - ent.minPfn ≠ pfn - ent.minPfn := by
          have := holds.1
          omega
        rw [set.reserved, if_neg different, set.idle]
        exact ⟨place, pageReserved, pageIdle⟩
      obtain ⟨final, executed, rest, finalReady⟩ :=
        inductionHypothesis unmarkedReady restResting
      refine ⟨final, ?_, .cons holds set rest, finalReady⟩
      rw [overPages, unmarked]
      exact executed

end Pages

/-! ## Page operations -/

/-- A call that keeps the region keeps the pool in order. -/
theorem PoolReady.of_sameRegion
    {pool after : PageBuddy}
    {live liveAfter : List Block}
    (ready : PoolReady pool live)
    (sound : PoolSound after [] liveAfter)
    (merged : after.Merged)
    (region : SameRegion pool after)
    (usecase :
      ∀ idx, (∀ block ∈ liveAfter, block.start ≠ idx) →
        (after.array idx).usecase = (fun _ => false) ∨
          (after.array idx).usecase = (pool.array idx).usecase ∧
            ∀ block ∈ live, block.start ≠ idx) :
    PoolReady after liveAfter := by
  refine ⟨sound, merged, fun idx bound unreserved notLive => ?_,
    fun idx isReserved => ?_⟩
  · rcases usecase idx notLive with clear | ⟨same, notLiveBefore⟩
    · exact clear
    · rw [same]
      refine ready.clear idx (region.nrPages ▸ bound) ?_ notLiveBefore
      exact (region.reserved idx).symm.trans unreserved
  · have wasReserved := (region.reserved idx).symm.trans isReserved
    exact (region.reservedOrder idx wasReserved).trans
      (ready.resting idx wasReserved)

/-- The pool of a new region is in order. -/
theorem addUsablePages_ready
    {inUse : Nat → Bool}
    {raw : RawMemory}
    {nrPages minPfn : Nat}
    {after : PageBuddy}
    (added :
      addUsablePages inUse (List.range nrPages)
        (initPool raw nrPages minPfn) = some after) :
    PoolReady after [] := by
  have settled :=
    addUsablePages_invariant
      (fun _ pool =>
        (∀ idx, pool.Unreserved idx →
          (pool.array idx).usecase = fun _ => false) ∧
        ∀ idx, (pool.array idx).reserved = true → (pool.array idx).order = 0)
      (fun holds _ => holds)
      ?_ (regionReady_initPool raw nrPages minPfn) ?_ List.nodup_range
      (fun _ member => ⟨List.mem_range.mp member, rfl, rfl⟩) added
  · obtain ⟨ready, clear, resting⟩ := settled
    exact ⟨ready.sound, addUsablePages_merged added,
      fun idx _ unreserved _ => clear idx unreserved, resting⟩
  · rintro pool linked idx rest ready ⟨clear, resting⟩ bound isReserved
      orderZero - executed
    obtain ⟨again, executedAgain, region, -⟩ :=
      ready.addPage bound isReserved orderZero
    obtain rfl : again = linked :=
      Option.some.inj (executedAgain.symm.trans executed)
    obtain ⟨-, clearPage, clearElsewhere⟩ :=
      enqueuePageToBuddyPool_usage executed
    refine ⟨fun other unreserved => ?_, fun other nowReserved => ?_⟩
    · by_cases same : other = idx
      · subst same
        exact clearPage
      · refine (clearElsewhere other same).trans ?_
        rw [PageBuddy.modify_array_of_ne same]
        refine clear other ?_
        have before := (region.reserved other).symm.trans unreserved
        rwa [PageBuddy.modify_array_of_ne same] at before
    · have wasReserved := (region.reserved other).symm.trans nowReserved
      have different : other ≠ idx := by
        rintro rfl
        simp at wasReserved
      refine (region.reservedOrder other wasReserved).trans ?_
      rw [PageBuddy.modify_array_of_ne different] at wasReserved ⊢
      exact resting other wasReserved
  · refine ⟨fun idx unreserved => ?_, fun _ _ => rfl⟩
    simp [PageBuddy.Unreserved, initPool, initFrame] at unreserved

/-- Handing out a block notes the use of its first page only. -/
theorem Taken.usecase
    {pool after : PageBuddy}
    {order pfn : Nat}
    {usage : PageUsage}
    (taken : Taken pool order usage (.ok pfn) after) :
    ∃ idx, (after.array idx).pfn = pfn ∧
      ∀ other, other ≠ idx →
        (after.array other).usecase = (pool.array other).usecase := by
  cases taken with
  | @taken curOrder idx rest adjusted above bound listed adjustedOrder =>
      obtain ⟨looped, -⟩ := adjustPageOrder_shape adjustedOrder
      have sameFrames := SameButOrders.adjustPageOrderLoop looped
      obtain ⟨-, -, elsewhere⟩ := handOutPage_usage adjusted idx usage
      refine ⟨idx, rfl, fun other different => ?_⟩
      rw [elsewhere other different, sameFrames.frame other]
      rfl

/-- Every call on pages keeps the database ready. -/
theorem DbReady.call
    {state after : PfdbState}
    {call : PfdbCall}
    (ready : DbReady state)
    (stepped : pfdbNext state call = some after) :
    DbReady after := by
  have sound := ready.sound.step stepped
  have merged : DbMerged state.db := fun ent member =>
    (ready.pools ent member).merged
  have mergedAfter := merged.step ready.sound stepped
  refine ⟨sound, ready.small.step ready.sound stepped, ?_⟩
  cases pfdbNext_cases ready.sound stepped with
  | @added sizes region raw pool db usable inserted =>
      have nobody := ready.sound.insert_liveBlocks inserted
      obtain ⟨earlier, later, shape, rfl, -⟩ := pfdbInsert_shape inserted
      intro ent member
      have older : ent ∈ earlier ++ later →
          PoolReady ent.pagePool (ent.liveBlocks state.allocated) :=
        fun both => ready.pools ent (shape ▸ both)
      rcases List.mem_append.mp member with inEarlier | others
      · exact older (List.mem_append_left _ inEarlier)
      · rcases List.mem_cons.mp others with rfl | inLater
        · rw [nobody]
          exact addUsablePages_ready usable
        · exact older (List.mem_append_right _ inLater)
  | exhausted =>
      exact ready.pools
  | @taken order idx usage ent pool db member replaced holds took sameRegion =>
      intro other otherMember
      rcases replaced.mem_after ready.sound.regions holds otherMember with
        rfl | ⟨older, outside⟩
      · refine (ready.pools ent member).of_sameRegion
          (sound.ents _ otherMember).pool (mergedAfter _ otherMember)
          sameRegion fun page notLive => .inr ?_
        obtain ⟨head, headPfn, elsewhere⟩ := took.usecase
        have headIdx : head = idx := by
          rw [sameRegion.pfn, (ready.sound.ents ent member).pfn] at headPfn
          omega
        subst headIdx
        have live :
            PfdbEnt.liveBlocks { ent with pagePool := pool }
                (⟨ent.minPfn + head, order⟩ :: state.allocated) =
              ⟨head, order⟩ :: ent.liveBlocks state.allocated := by
          have inRegion :
              PfdbEnt.Holds { ent with pagePool := pool }
                (ent.minPfn + head) := holds
          simp only [PfdbEnt.liveBlocks, List.filterMap_cons, if_pos inRegion,
            Nat.add_sub_cancel_left]
          rfl
        rw [live] at notLive
        have different : page ≠ head :=
          fun same => notLive _ List.mem_cons_self same.symm
        exact ⟨elsewhere page different,
          fun block isLive => notLive block (List.mem_cons_of_mem _ isLive)⟩
      · rw [liveBlocks_cons_of_not_holds outside]
        exact ready.pools other older
  | @counted _ pfn usecnt ent db _ member replaced holds =>
      intro other otherMember
      rcases replaced.mem_after ready.sound.regions holds otherMember with
        rfl | ⟨older, -⟩
      · refine (ready.pools ent member).of_sameRegion
          (sound.ents _ otherMember).pool (mergedAfter _ otherMember)
          (.setUsecnt _ _ _) fun page notLive => .inr ⟨?_, notLive⟩
        by_cases same : page = pfn - ent.minPfn <;> simp [same]
      · exact ready.pools other older
  | @returned pfn block ent pool db member replaced holds wasLive starts
      enqueued sameRegion live =>
      intro other otherMember
      rcases replaced.mem_after ready.sound.regions holds otherMember with
        rfl | ⟨older, outside⟩
      · refine (ready.pools ent member).of_sameRegion
          (sound.ents _ otherMember).pool (mergedAfter _ otherMember)
          sameRegion fun page notLive => ?_
        obtain ⟨-, clearHead, elsewhere⟩ :=
          enqueuePageToBuddyPool_usage enqueued
        by_cases same : page = block.start
        · subst same
          exact .inl clearHead
        · refine .inr ⟨?_, fun otherBlock isLive => ?_⟩
          · rw [elsewhere page same, PageBuddy.modify_array_of_ne same]
          · by_cases isBlock : otherBlock = block
            · subst isBlock
              exact fun atPage => same atPage.symm
            · refine notLive otherBlock ?_
              have inRest : otherBlock ∈
                  (ent.liveBlocks state.allocated).erase block :=
                (List.mem_erase_of_ne isBlock).mpr isLive
              exact live ▸ inRest
      · rw [liveBlocks_eraseP_of_not_holds outside]
        exact ready.pools other older

/-- A region that is removed leaves the others as they were. -/
theorem DbReady.remove
    {db after : List PfdbEnt}
    {allocated : List Allocation}
    {place : Nat}
    (ready : DbReady ⟨db, allocated⟩)
    (removed : removePfdbEntCommon place db = some after) :
    DbReady ⟨after, allocated⟩ := by
  have sublist : after.Sublist db := by
    rw [removePfdbEntCommon] at removed
    split at removed
    · cases removed
    · split_ifs at removed
      cases removed
      exact List.eraseIdx_sublist db place
  exact ⟨ready.sound.remove removed,
    fun ent member => ready.small ent (sublist.subset member),
    fun ent member => ready.pools ent (sublist.subset member)⟩

/-! ## Ranges given back -/

/-- The walk that returned success operated on a region that has the page. -/
theorem atLookup_shape
    {operation : PageBuddy → Nat → Option (Except Errno Unit × PageBuddy)}
    {pfn : Nat} :
    ∀ {db after : List PfdbEnt},
      atLookup operation pfn db = some (.ok (), after) →
      ∃ earlier ent later pool,
        db = earlier ++ ent :: later ∧
          ent.Holds pfn ∧
          operation ent.pagePool (pfn - ent.minPfn) = some (.ok (), pool) ∧
          after = earlier ++ { ent with pagePool := pool } :: later := by
  intro db
  induction db with
  | nil =>
      intro after found
      cases found
  | cons ent rest inductionHypothesis =>
      intro after found
      rw [atLookup] at found
      cases compared : pfdbEntCmp (lookupKey pfn) ent with
      | none =>
          rw [compared] at found
          cases found
      | some order =>
          rw [compared] at found
          simp only at found
          split_ifs at found with same
          · obtain ⟨⟨result, pool⟩, operated, shape⟩ :=
              Option.map_eq_some_iff.mp found
            cases shape
            have holds : ent.Holds pfn := by
              rw [pfdbEntCmp] at compared
              split_ifs at compared with above below inside
              · cases compared
                omega
              · cases compared
                omega
              · exact ⟨inside.1, not_le.mp below⟩
            exact ⟨[], ent, rest, pool, rfl, holds, operated, rfl⟩
          · obtain ⟨⟨result, laterAfter⟩, laterFound, shape⟩ :=
              Option.map_eq_some_iff.mp found
            cases shape
            obtain ⟨earlier, other, later, pool, rfl, holds, operated, rfl⟩ :=
              inductionHypothesis laterFound
            exact ⟨ent :: earlier, other, later, pool, rfl, holds, operated,
              rfl⟩

/-- A reserved page stays so when the pool of a region keeps it reserved. -/
theorem ReservedPage.withPool
    {earlier later : List PfdbEnt}
    {ent : PfdbEnt}
    {pool : PageBuddy}
    {pfn : Nat}
    (reserved : ReservedPage (earlier ++ ent :: later) pfn)
    (kept :
      ent.Holds pfn →
      (ent.pagePool.array (pfn - ent.minPfn)).reserved = true →
      (pool.array (pfn - ent.minPfn)).reserved = true) :
    ReservedPage (earlier ++ { ent with pagePool := pool } :: later) pfn := by
  obtain ⟨region, member, holds, isReserved⟩ := reserved
  rcases List.mem_append.mp member with inEarlier | others
  · exact ⟨region, by simp [inEarlier], holds, isReserved⟩
  · rcases List.mem_cons.mp others with rfl | inLater
    · exact ⟨{ region with pagePool := pool }, by simp, holds,
        kept holds isReserved⟩
    · exact ⟨region, by simp [inLater], holds, isReserved⟩

/-- Giving one page back leaves the other reserved pages reserved. -/
theorem DbReady.unmarked
    {db after : List PfdbEnt}
    {allocated : List Allocation}
    {pfn : Nat}
    (ready : DbReady ⟨db, allocated⟩)
    (unmarked : unmarkPageFrameReserved pfn db = some (.ok (), after)) :
    DbReady ⟨after, allocated⟩ ∧
      ∀ other, other ≠ pfn → ReservedPage db other →
        ReservedPage after other := by
  obtain ⟨earlier, ent, later, pool, rfl, holds, operated, rfl⟩ :=
    atLookup_shape unmarked
  have member : ent ∈ earlier ++ ent :: later := by simp
  have inRegion := ready.inRegion member holds
  have checks :
      (ent.pagePool.array (pfn - ent.minPfn)).reserved = true ∧
        (ent.pagePool.array (pfn - ent.minPfn)).idle = true := by
    rw [unmarkPageReserved] at operated
    split_ifs at operated with isReserved idle
    · exact ⟨isReserved, idle⟩
    · cases operated
  obtain ⟨again, executed, poolReady, set, available⟩ :=
    (ready.pools ent member).unmark inRegion checks.1 checks.2
  obtain rfl : again = pool := by
    rw [operated] at executed
    simpa using executed.symm
  refine ⟨ready.withPool holds poolReady set ?_,
    fun other different reserved => ?_⟩
  · rw [available, set.card_of_unreserved inRegion checks.1,
      (ready.sound.ents ent member).available]
  · refine reserved.withPool fun otherHolds isReserved => ?_
    have elsewhere : other - ent.minPfn ≠ pfn - ent.minPfn := by
      have lower := holds.1
      have otherLower := otherHolds.1
      omega
    rw [set.reserved, if_neg elsewhere]
    exact isReserved

/-- Giving a range back leaves the reserved pages outside it reserved. -/
theorem DbReady.unmarkedRange
    {allocated : List Allocation} :
    ∀ {pages pfn : Nat} {db after : List PfdbEnt},
      DbReady ⟨db, allocated⟩ →
      overPages unmarkPageFrameReserved pfn pages db = some after →
      DbReady ⟨after, allocated⟩ ∧
        ∀ other, ¬ (pfn ≤ other ∧ other < pfn + pages) →
          ReservedPage db other → ReservedPage after other := by
  intro pages
  induction pages with
  | zero =>
      intro pfn db after ready executed
      cases executed
      exact ⟨ready, fun _ _ reserved => reserved⟩
  | succ pages inductionHypothesis =>
      intro pfn db after ready executed
      rw [overPages] at executed
      split at executed
      · rename_i middle first
        obtain ⟨middleReady, firstKept⟩ := ready.unmarked first
        obtain ⟨afterReady, restKept⟩ :=
          inductionHypothesis middleReady executed
        refine ⟨afterReady, fun other outside reserved => ?_⟩
        exact restKept other (by omega) (firstKept other (by omega) reserved)
      · cases executed

/-! ## Ranges reserved -/

/-- A range that is free and starts a block is reserved as a whole. -/
theorem DbReady.markRange
    {earlier later : List PfdbEnt}
    {allocated : List Allocation}
    {ent : PfdbEnt}
    {range : PhysRange}
    (ready : DbReady ⟨earlier ++ ent :: later, allocated⟩)
    (free : ent.RangeFree range)
    (headed : ent.RangeHeaded range) :
    ∃ pool,
      pfdbMarkPhysRangeReserved range (earlier ++ ent :: later) =
          some (earlier ++ { ent with pagePool := pool } :: later) ∧
        RangeSet ent pool range.firstPfn range.pages true ∧
        DbReady
          ⟨earlier ++ { ent with pagePool := pool } :: later, allocated⟩ := by
  refine ready.markPages (fun page lower upper => ?_) fun some => ?_
  · have covers := PhysRange.covers_of_page lower upper
    exact ⟨free page covers, headed.notLast page covers⟩
  · obtain ⟨⟨start, order⟩, listed, starts⟩ :=
      headed.head range.firstPfn
        (PhysRange.covers_of_page (Nat.le_refl _) (by omega))
    refine ⟨order, ?_⟩
    rw [← starts, Nat.add_sub_cancel_left]
    exact listed

/-! ## Runs -/

/-- Every call that fits keeps the database ready. -/
theorem DbReady.step
    {state after : PfdbState}
    {call : ReserveCall}
    (ready : DbReady state)
    (fits : ReserveFits state call)
    (stepped : reserveNext state call = some after) :
    DbReady after := by
  cases call with
  | region call =>
      cases call with
      | call call =>
          exact ready.call stepped
      | remove place =>
          cases stepped
          cases removed : removePfdbEntCommon place state.db with
          | none =>
              exact ready
          | some db =>
              exact ready.remove removed
  | mark range =>
      obtain ⟨ent, member, free, headed⟩ := fits
      obtain ⟨db, marked, rfl⟩ := Option.map_eq_some_iff.mp stepped
      obtain ⟨earlier, later, nodes⟩ := List.append_of_mem member
      obtain ⟨before, allocated⟩ := state
      simp only at nodes marked
      subst nodes
      obtain ⟨pool, executed, -, afterReady⟩ := ready.markRange free headed
      obtain rfl := Option.some.inj (executed.symm.trans marked)
      exact afterReady
  | unmark range =>
      obtain ⟨db, unmarked, rfl⟩ := Option.map_eq_some_iff.mp stepped
      exact (ready.unmarkedRange unmarked).1

/-- Every state that calls reach is ready, if every reservation fits. -/
theorem dbReady_of_run
    {calls : List ReserveCall}
    {state : PfdbState}
    (run : Run (Guarded ReserveFits (StepOf reserveNext)) .empty calls state) :
    DbReady state :=
  run.invariant ⟨pfdbSound_empty, nofun, nofun⟩
    fun ready stepped => ready.step stepped.1 stepped.2

/-- A call that leaves a range alone leaves its pages reserved. -/
theorem DbReady.reserved_step
    {state after : PfdbState}
    {call : ReserveCall}
    {range : PhysRange}
    {pfn : Nat}
    (ready : DbReady state)
    (leaves : LeavesReserved range state call)
    (stepped : reserveNext state call = some after)
    (covers : range.Covers pfn)
    (reserved : ReservedPage state.db pfn) :
    ReservedPage after.db pfn := by
  cases call with
  | region call =>
      cases call with
      | call call =>
          obtain ⟨ent, member, holds, isReserved⟩ := reserved
          obtain ⟨later, laterMember, kept⟩ :=
            regionKept_step ready.sound stepped ent member
          refine ⟨later, laterMember, ?_, ?_⟩
          · simpa only [PfdbEnt.Holds, kept.minPfn, kept.maxPfn] using holds
          · rw [kept.minPfn, kept.pool.reserved]
            exact isReserved
      | remove place =>
          exact absurd leaves id
  | mark other =>
      obtain ⟨ent, member, free, headed⟩ := leaves
      obtain ⟨db, marked, rfl⟩ := Option.map_eq_some_iff.mp stepped
      obtain ⟨earlier, later, nodes⟩ := List.append_of_mem member
      obtain ⟨before, allocated⟩ := state
      simp only at nodes marked reserved
      subst nodes
      obtain ⟨pool, executed, set, -⟩ := ready.markRange free headed
      obtain rfl := Option.some.inj (executed.symm.trans marked)
      refine reserved.withPool fun _ isReserved => ?_
      rw [set.reserved, isReserved, ite_self]
  | unmark other =>
      obtain ⟨db, unmarked, rfl⟩ := Option.map_eq_some_iff.mp stepped
      refine (ready.unmarkedRange unmarked).2 pfn (fun inside => ?_) reserved
      exact leaves pfn covers
        (PhysRange.covers_of_page inside.1 inside.2)

/-- Nobody holds a block with a reserved page. -/
theorem DbReady.not_has
    {state : PfdbState}
    {held : Allocation}
    {pfn : Nat}
    (ready : DbReady state)
    (reserved : ReservedPage state.db pfn)
    (isHeld : held ∈ state.allocated) :
    ¬ held.Has pfn := by
  rintro ⟨lower, upper⟩
  obtain ⟨region, regionMember, regionHolds, isReserved⟩ := reserved
  obtain ⟨ent, member, holds⟩ := ready.sound.held held isHeld
  have live : (⟨held.pfn - ent.minPfn, held.order⟩ : Block) ∈
      [] ++ (ent.pagePool.freeBlocks ++ ent.liveBlocks state.allocated) := by
    have inLive : (⟨held.pfn - ent.minPfn, held.order⟩ : Block) ∈
        ent.liveBlocks state.allocated := by
      rw [PfdbEnt.liveBlocks, List.mem_filterMap]
      exact ⟨held, isHeld, if_pos holds⟩
    simp [inLive]
  have tiles := (ready.pools ent member).sound.tiles
  have inside := tiles.inside _ live
  have size := (ready.sound.ents ent member).nrPages
  simp only [Block.size_mk] at inside
  have start := holds.1
  have entHolds : ent.Holds pfn := by
    rw [PfdbEnt.Holds]
    omega
  have same : region = ent := by
    have first := ready.sorted.unique regionMember regionHolds
    have second := ready.sorted.unique member entHolds
    exact Option.some.inj (first.symm.trans second)
  subst same
  have unreserved : region.pagePool.Unreserved (pfn - region.minPfn) :=
    tiles.available_of_member live (by
      simp only [Block.Contains, Block.size_mk]
      omega)
  rw [PageBuddy.Unreserved, isReserved] at unreserved
  cases unreserved

/-- A reserved range stays out of every caller's hands. -/
theorem DbReady.kept
    {state later : PfdbState}
    {range : PhysRange}
    {calls : List ReserveCall}
    (ready : DbReady state)
    (reserved : ∀ pfn, range.Covers pfn → ReservedPage state.db pfn)
    (run :
      Run (Guarded (LeavesReserved range) (StepOf reserveNext)) state calls
        later) :
    DbReady later ∧ ∀ pfn, range.Covers pfn → ReservedPage later.db pfn := by
  induction run with
  | nil =>
      exact ⟨ready, reserved⟩
  | @snoc _ call middle _ _ last inductionHypothesis =>
      obtain ⟨middleReady, middleReserved⟩ := inductionHypothesis
      obtain ⟨leaves, stepped⟩ := last
      have fits : ReserveFits middle call := by
        cases call with
        | mark range => exact leaves
        | region call => trivial
        | unmark range => trivial
      exact ⟨middleReady.step fits stepped, fun pfn covers =>
        middleReady.reserved_step leaves stepped covers
          (middleReserved pfn covers)⟩

/-! ## When a reservation is right -/

section Reservation

variable {earlier later : List PfdbEnt}
variable {allocated : List Allocation}
variable {ent : PfdbEnt}
variable {range : PhysRange}

/-- The pages of a free range are the pages that the loop goes through. -/
theorem DbReady.covers_iff
    (ready : DbReady ⟨earlier ++ ent :: later, allocated⟩)
    (free : ent.RangeFree range)
    {pfn : Nat} :
    range.Covers pfn ↔
      range.firstPfn ≤ pfn ∧ pfn < range.firstPfn + range.pages :=
  PhysRange.covers_iff fun _ covers =>
    ready.pfn_lt (by simp) (free _ covers).1

/-- A page is free when it is neither reserved nor in a caller's hands. -/
theorem DbReady.free_iff
    {state : PfdbState}
    {region : PfdbEnt}
    {pfn : Nat}
    (ready : DbReady state)
    (member : region ∈ state.db) :
    region.Free pfn ↔
      region.Holds pfn ∧
        region.pagePool.Unreserved (pfn - region.minPfn) ∧
        ∀ block ∈ region.liveBlocks state.allocated,
          ¬ block.Contains (pfn - region.minPfn) := by
  rw [PfdbEnt.Free]
  refine and_congr_right fun holds => ?_
  exact (ready.pools region member).free_iff (ready.inRegion member holds)

/-- In a region, a range that was set changed the reservation of its pages. -/
theorem RangeSet.reserved_of_covers
    {pool : PageBuddy}
    {value : Bool}
    {pfn : Nat}
    (set : RangeSet ent pool range.firstPfn range.pages value)
    (holds : ent.Holds pfn)
    (inRange :
      range.firstPfn ≤ pfn ∧ pfn < range.firstPfn + range.pages) :
    (pool.array (pfn - ent.minPfn)).reserved = value := by
  have lower := holds.1
  rw [set.reserved, if_pos (by omega)]

theorem RangeSet.reserved_of_not_covers
    {pool : PageBuddy}
    {value : Bool}
    {pfn : Nat}
    (set : RangeSet ent pool range.firstPfn range.pages value)
    (holds : ent.Holds pfn)
    (outside :
      ¬ (range.firstPfn ≤ pfn ∧ pfn < range.firstPfn + range.pages)) :
    (pool.array (pfn - ent.minPfn)).reserved =
      (ent.pagePool.array (pfn - ent.minPfn)).reserved := by
  have lower := holds.1
  rw [set.reserved, if_neg (by omega)]

/-- Exactly the pages of the range are no longer free. -/
theorem DbReady.taken
    {pool : PageBuddy}
    (ready : DbReady ⟨earlier ++ ent :: later, allocated⟩)
    (afterReady :
      DbReady ⟨earlier ++ { ent with pagePool := pool } :: later, allocated⟩)
    (free : ent.RangeFree range)
    (set : RangeSet ent pool range.firstPfn range.pages true)
    (pfn : Nat) :
    FreePage (earlier ++ { ent with pagePool := pool } :: later) pfn ↔
      FreePage (earlier ++ ent :: later) pfn ∧ ¬ range.Covers pfn := by
  have member : ent ∈ earlier ++ ent :: later := by simp
  have afterMember : { ent with pagePool := pool } ∈
      earlier ++ { ent with pagePool := pool } :: later := by simp
  -- in the region of the range, the reservation decides
  have inEnt : PfdbEnt.Free { ent with pagePool := pool } pfn ↔
      ent.Free pfn ∧ ¬ range.Covers pfn := by
    rw [afterReady.free_iff afterMember, ready.free_iff member,
      ready.covers_iff free]
    simp only [PageBuddy.Unreserved]
    constructor
    · rintro ⟨holds, unreserved, notLive⟩
      have outside :
          ¬ (range.firstPfn ≤ pfn ∧ pfn < range.firstPfn + range.pages) := by
        intro inRange
        rw [set.reserved_of_covers holds inRange] at unreserved
        cases unreserved
      rw [set.reserved_of_not_covers holds outside] at unreserved
      exact ⟨⟨holds, unreserved, notLive⟩, outside⟩
    · rintro ⟨⟨holds, unreserved, notLive⟩, outside⟩
      exact ⟨holds, (set.reserved_of_not_covers holds outside).trans
        unreserved, notLive⟩
  -- the other regions have no page of the range
  have notElsewhere : ∀ region ∈ earlier ++ later,
      region.Free pfn → ¬ range.Covers pfn := by
    intro region regionMember regionFree covers
    have regionInDb : region ∈ earlier ++ ent :: later := by
      rcases List.mem_append.mp regionMember with inEarlier | inLater
      · simp [inEarlier]
      · simp [inLater]
    have regions := ready.sound.regions
    have holds := (free pfn covers).1
    simp only at regions
    rw [List.pairwise_append, List.pairwise_cons] at regions
    rcases List.mem_append.mp regionMember with inEarlier | inLater
    · exact (not_holds_of_ne
        (regions.2.2 region inEarlier ent List.mem_cons_self)).2 holds
          regionFree.1
    · exact (not_holds_of_ne (regions.2.1.1 region inLater)).1 holds
        regionFree.1
  constructor
  · rintro ⟨region, regionMember, regionFree⟩
    rcases List.mem_append.mp regionMember with inEarlier | others
    · exact ⟨⟨region, by simp [inEarlier], regionFree⟩,
        notElsewhere region (by simp [inEarlier]) regionFree⟩
    · rcases List.mem_cons.mp others with rfl | inLater
      · obtain ⟨entFree, outside⟩ := inEnt.mp regionFree
        exact ⟨⟨ent, member, entFree⟩, outside⟩
      · exact ⟨⟨region, by simp [inLater], regionFree⟩,
          notElsewhere region (by simp [inLater]) regionFree⟩
  · rintro ⟨⟨region, regionMember, regionFree⟩, outside⟩
    rcases List.mem_append.mp regionMember with inEarlier | others
    · exact ⟨region, by simp [inEarlier], regionFree⟩
    · rcases List.mem_cons.mp others with rfl | inLater
      · exact ⟨_, afterMember, inEnt.mpr ⟨regionFree, outside⟩⟩
      · exact ⟨region, by simp [inLater], regionFree⟩

/-- Giving the range back at once restores the free blocks. -/
theorem DbReady.restored
    {pool : PageBuddy}
    (ready : DbReady ⟨earlier ++ ent :: later, allocated⟩)
    (afterReady :
      DbReady ⟨earlier ++ { ent with pagePool := pool } :: later, allocated⟩)
    (free : ent.RangeFree range)
    (headed : ent.RangeHeaded range)
    (set : RangeSet ent pool range.firstPfn range.pages true) :
    ∃ restored,
      pfdbUnmarkPhysRangeReserved range
          (earlier ++ { ent with pagePool := pool } :: later) =
        some restored ∧
      List.Forall₂ SameFree (earlier ++ ent :: later) restored := by
  have member : ent ∈ earlier ++ ent :: later := by simp
  have poolReady := ready.pools ent member
  have resting : ∀ page, range.firstPfn ≤ page →
      page < range.firstPfn + range.pages →
      (PfdbEnt.Holds { ent with pagePool := pool } page ∧
          page + 1 ≠ ent.maxPfn) ∧
        (pool.array (page - ent.minPfn)).reserved = true ∧
        (pool.array (page - ent.minPfn)).idle = true := by
    intro page lower upper
    have covers := PhysRange.covers_of_page lower upper
    obtain ⟨holds, block, listed, contains⟩ := free page covers
    refine ⟨⟨holds, headed.notLast page covers⟩,
      set.reserved_of_covers holds ⟨lower, upper⟩, ?_⟩
    rw [set.idle]
    exact poolReady.idle_of_free listed contains
  obtain ⟨final, executed, back, finalReady⟩ := afterReady.unmarkPages resting
  refine ⟨_, executed, ?_⟩
  have finalMember : { ent with pagePool := final } ∈
      earlier ++ { ent with pagePool := final } :: later := by simp
  have sameReserved : ∀ idx,
      (final.array idx).reserved = (ent.pagePool.array idx).reserved := by
    intro idx
    rw [back.reserved]
    simp only [set.reserved]
    by_cases inRange : range.firstPfn ≤ ent.minPfn + idx ∧
        ent.minPfn + idx < range.firstPfn + range.pages
    · have covers := PhysRange.covers_of_page inRange.1 inRange.2
      have entFree := (ready.free_iff member).mp (free _ covers)
      have unreserved := entFree.2.1
      rw [Nat.add_sub_cancel_left] at unreserved
      rw [if_pos inRange]
      exact unreserved.symm
    · rw [if_neg inRange, if_neg inRange]
  have sameFree : SameFree ent { ent with pagePool := final } :=
    ⟨rfl, rfl, poolReady.freeBlocks_unique
      (finalReady.pools _ finalMember)
      (back.nrPages.trans set.nrPages) sameReserved⟩
  have same : ∀ regions : List PfdbEnt,
      List.Forall₂ SameFree regions regions := fun regions =>
    List.forall₂_same.mpr fun _ _ => ⟨rfl, rfl, fun _ => Iff.rfl⟩
  exact List.rel_append (same earlier) (.cons sameFree (same later))

/-- A free range that starts a block is reserved as it should be. -/
theorem DbReady.reservationRight
    (ready : DbReady ⟨earlier ++ ent :: later, allocated⟩)
    (free : ent.RangeFree range)
    (headed : ent.RangeHeaded range) :
    ReservationRight ⟨earlier ++ ent :: later, allocated⟩ range := by
  obtain ⟨pool, marked, set, afterReady⟩ := ready.markRange free headed
  refine ⟨_, marked, ready.taken afterReady free set,
    fun region member => (afterReady.pools region member).sound.counts,
    fun region member => (afterReady.sound.ents region member).available,
    fun calls final run held isHeld pfn covers => ?_,
    ready.restored afterReady free headed set⟩
  have reserved : ∀ pfn, range.Covers pfn →
      ReservedPage (earlier ++ { ent with pagePool := pool } :: later) pfn := by
    intro pfn covers
    have holds := (free pfn covers).1
    exact ⟨{ ent with pagePool := pool }, by simp, holds,
      set.reserved_of_covers holds ((ready.covers_iff free).mp covers)⟩
  obtain ⟨finalReady, finalReserved⟩ := afterReady.kept reserved run
  exact finalReady.not_has (finalReserved pfn covers) isHeld

/-! ## When it is not -/

/-- Splitting links more blocks and unlinks none. -/
theorem adjustPageOrderLoop_mono
    {requestOrder idx : Nat}
    {after : PageBuddy} :
    ∀ {curOrder : Nat} {pool : PageBuddy},
      adjustPageOrderLoop requestOrder idx curOrder pool = some after →
      ∀ order, ∀ start ∈ pool.pageList order, start ∈ after.pageList order := by
  intro curOrder
  induction curOrder with
  | zero =>
      intro pool executed order start listed
      cases executed
      exact listed
  | succ curOrder inductionHypothesis =>
      intro pool executed order start listed
      rw [adjustPageOrderLoop] at executed
      simp only at executed
      split_ifs at executed
      · refine inductionHypothesis executed order start ?_
        by_cases same : order = curOrder
        · subst same
          simp [PageBuddy.setOrder, PageBuddy.queueAdd, PageBuddy.modify,
            listed]
        · simpa [PageBuddy.setOrder, PageBuddy.queueAdd, PageBuddy.modify,
            same] using listed
      · cases executed
        exact listed

/-- Reserving a page leaves the blocks linked that start at other pages. -/
theorem markPageReserved_mono
    {pool after : PageBuddy}
    {idx : Nat}
    {block : Block}
    (marked : markPageReserved pool idx = some (.ok (), after))
    (elsewhere : block.start ≠ idx)
    (listed : block ∈ pool.freeBlocks) :
    block ∈ after.freeBlocks := by
  obtain ⟨bound, inList⟩ := mem_blocksOf.mp listed
  simp only [markPageReserved] at marked
  split_ifs at marked
  split at marked
  · cases marked
  · rename_i adjusted executed
    split_ifs at marked
    cases marked
    obtain ⟨looped, single⟩ := adjustPageOrder_shape executed
    refine mem_blocksOf.mpr ⟨bound, ?_⟩
    rw [reservePage_of_single single]
    refine adjustPageOrderLoop_mono looped block.order block.start ?_
    exact (List.mem_erase_of_ne elsewhere).mpr inList

/-- A loop that returned met no last page and kept the blocks below its pages. -/
theorem overPages_mark_shape :
    ∀ {pages pfn : Nat} {ent : PfdbEnt} {after : List PfdbEnt},
      RegionsSorted (earlier ++ ent :: later) →
      (∀ page, pfn ≤ page → page < pfn + pages → ent.Holds page) →
      overPages markPageFrameReserved pfn pages (earlier ++ ent :: later) =
        some after →
      (∀ page, pfn ≤ page → page < pfn + pages → page + 1 ≠ ent.maxPfn) ∧
        ∃ pool,
          after = earlier ++ { ent with pagePool := pool } :: later ∧
            ∀ block ∈ ent.pagePool.freeBlocks,
              ent.minPfn + block.start < pfn → block ∈ pool.freeBlocks := by
  intro pages
  induction pages with
  | zero =>
      intro pfn ent after _ _ executed
      cases executed
      exact ⟨fun page _ _ => by omega, ent.pagePool, rfl,
        fun _ listed _ => listed⟩
  | succ pages inductionHypothesis =>
      intro pfn ent after sorted holds executed
      have pfnHolds := holds pfn (by omega) (by omega)
      have member : ent ∈ earlier ++ ent :: later := by simp
      have limit :=
        lt_pfnLimit_of_small (lt_trans pfnHolds.2 (sorted.small ent member))
      rw [overPages, markPageFrameReserved,
        atLookup_eq limit pfnHolds sorted] at executed
      by_cases last : pfn + 1 = ent.maxPfn
      · rw [if_pos last] at executed
        cases executed
      · rw [if_neg last] at executed
        cases marked : markPageReserved ent.pagePool (pfn - ent.minPfn) with
        | none =>
            rw [marked] at executed
            cases executed
        | some both =>
            obtain ⟨result, pool⟩ := both
            rw [marked] at executed
            cases result with
            | error code =>
                cases executed
            | ok done =>
                have poolSorted : RegionsSorted
                    (earlier ++ { ent with pagePool := pool } :: later) := by
                  refine ⟨?_, ?_, ?_⟩
                  · simpa [List.pairwise_append, List.pairwise_cons]
                      using sorted.regions
                  · intro other otherMember
                    rcases List.mem_append.mp otherMember with inside | inside
                    · exact sorted.ordered other (by simp [inside])
                    · rcases List.mem_cons.mp inside with rfl | inside
                      · exact sorted.ordered ent member
                      · exact sorted.ordered other (by simp [inside])
                  · intro other otherMember
                    rcases List.mem_append.mp otherMember with inside | inside
                    · exact sorted.small other (by simp [inside])
                    · rcases List.mem_cons.mp inside with rfl | inside
                      · exact sorted.small ent member
                      · exact sorted.small other (by simp [inside])
                obtain ⟨notLast, final, rfl, kept⟩ :=
                  inductionHypothesis poolSorted
                    (fun page lower upper =>
                      holds page (by omega) (by omega)) executed
                refine ⟨fun page lower upper => ?_, final, rfl,
                  fun block listed below => ?_⟩
                · by_cases first : page = pfn
                  · exact first ▸ last
                  · exact notLast page (by omega) (by omega)
                · have lower := pfnHolds.1
                  have stays : block ∈ pool.freeBlocks :=
                    markPageReserved_mono marked (by omega) listed
                  exact kept block stays
                    (show ent.minPfn + block.start < pfn + 1 by omega)

/-- A reservation that is right began at the first page of a block. -/
theorem DbReady.rangeHeaded
    (ready : DbReady ⟨earlier ++ ent :: later, allocated⟩)
    (free : ent.RangeFree range)
    (right : ReservationRight ⟨earlier ++ ent :: later, allocated⟩ range) :
    ent.RangeHeaded range := by
  obtain ⟨after, marked, reserved⟩ := right
  have member : ent ∈ earlier ++ ent :: later := by simp
  have holds : ∀ page, range.firstPfn ≤ page →
      page < range.firstPfn + range.pages → ent.Holds page :=
    fun page lower upper => (free page (PhysRange.covers_of_page lower upper)).1
  obtain ⟨notLast, pool, rfl, kept⟩ :=
    overPages_mark_shape ready.sorted holds marked
  refine ⟨fun pfn covers => ?_, fun pfn covers => ?_⟩
  · have inRange := (ready.covers_iff free).mp covers
    have firstCovers : range.Covers range.firstPfn :=
      PhysRange.covers_of_page (Nat.le_refl _) (by omega)
    obtain ⟨firstHolds, block, listed, contains⟩ :=
      free range.firstPfn firstCovers
    refine ⟨block, listed, ?_⟩
    -- a block that began before the range would still be linked
    by_contra notStart
    have lower := firstHolds.1
    have startLe := contains.1
    have still := kept block listed (by omega)
    have stillFree :
        FreePage (earlier ++ { ent with pagePool := pool } :: later)
          range.firstPfn :=
      ⟨{ ent with pagePool := pool }, by simp, firstHolds, block, still,
        contains⟩
    exact ((reserved.taken range.firstPfn).mp stillFree).2 firstCovers
  · have inRange := (ready.covers_iff free).mp covers
    exact notLast pfn inRange.1 inRange.2

end Reservation

/--
In every state that calls reach whose reservations all fitted, the reservation
of a range of free pages of one region is right exactly when the range starts
a free block and ends before the last page of the region.
-/
theorem reservationRight_iff_of_runs
    {calls : List ReserveCall}
    {state : PfdbState}
    (run : Run (Guarded ReserveFits (StepOf reserveNext)) .empty calls state)
    {ent : PfdbEnt}
    (member : ent ∈ state.db)
    {range : PhysRange}
    (free : ent.RangeFree range) :
    ReservationRight state range ↔ ent.RangeHeaded range := by
  have ready := dbReady_of_run run
  obtain ⟨db, allocated⟩ := state
  obtain ⟨earlier, later, nodes⟩ := List.append_of_mem member
  simp only at nodes
  subst nodes
  exact ⟨ready.rangeHeaded free, ready.reservationRight free⟩

/-! ## Eight pages -/

/-- The registration of eight pages, of which the last one is in use. -/
def eightPagesCall : ReserveCall :=
  .region (.call (.add ⟨200, 400⟩ eightPages dirtyMemory))

/-- The free blocks of the eight pages: four, two and one of them. -/
theorem eightPagesCall_blocks :
    ∃ state ent,
      reserveNext .empty eightPagesCall = some state ∧
        ent ∈ state.db ∧
        ent.minPfn = 0x80000 ∧ ent.maxPfn = 0x80008 ∧
        ent.pagePool.freeBlocks = [⟨6, 0⟩, ⟨4, 1⟩, ⟨0, 2⟩] := by
  have facts :
      (reserveNext .empty eightPagesCall).map
          (fun state => state.db.map fun ent =>
            (ent.minPfn, ent.maxPfn, ent.pagePool.freeBlocks)) =
        some [(0x80000, 0x80008, [⟨6, 0⟩, ⟨4, 1⟩, ⟨0, 2⟩])] := by
    decide +kernel
  obtain ⟨state, stepped, regions⟩ := Option.map_eq_some_iff.mp facts
  obtain ⟨ent, db, shape⟩ := List.map_eq_singleton_iff.mp regions
  simp only [Prod.mk.injEq] at shape
  exact ⟨state, ent, stepped, by simp [db], shape⟩

/-- The pages 0x80004 and 0x80005, which make a free block. -/
def wholeBlock : PhysRange where
  start := 0x80004000
  «end» := 0x80006000

theorem wholeBlock_covers
    {pfn : Nat} :
    wholeBlock.Covers pfn ↔ pfn = 0x80004 ∨ pfn = 0x80005 := by
  have size : pageSize = 4096 := rfl
  simp only [PhysRange.Covers, wholeBlock, truncateAlign, roundupAlign, size]
  omega

theorem reservationRight_wholeBlock :
    ∃ state ent,
      reserveNext .empty eightPagesCall = some state ∧
        ent ∈ state.db ∧
        ent.RangeFree wholeBlock ∧
        ReservationRight state wholeBlock := by
  obtain ⟨state, ent, stepped, member, first, last, blocks⟩ :=
    eightPagesCall_blocks
  have free : ent.RangeFree wholeBlock := by
    intro pfn covers
    have place := wholeBlock_covers.mp covers
    refine ⟨?_, ⟨4, 1⟩, by simp [blocks], ?_⟩
    · rw [PfdbEnt.Holds, first, last]
      omega
    · rw [first]
      simp only [Block.Contains, Block.size]
      omega
  have fits : ReserveFits .empty eightPagesCall := trivial
  refine ⟨state, ent, stepped, member, free,
    (reservationRight_iff_of_runs (.snoc .nil ⟨fits, stepped⟩) member
      free).mpr ⟨fun pfn _ => ?_, fun pfn covers => ?_⟩⟩
  · refine ⟨⟨4, 1⟩, by simp [blocks], ?_⟩
    rw [first]
    rfl
  · have place := wholeBlock_covers.mp covers
    omega

/-- The page 0x80001, the second one of a free block of four. -/
def insideBlock : PhysRange where
  start := 0x80001000
  «end» := 0x80002000

theorem insideBlock_covers
    {pfn : Nat} :
    insideBlock.Covers pfn ↔ pfn = 0x80001 := by
  have size : pageSize = 4096 := rfl
  simp only [PhysRange.Covers, insideBlock, truncateAlign, roundupAlign, size]
  omega

/--
A page inside a free block is not taken off the lists: the count of single
pages falls to zero although one is listed, and the next allocation of four
pages returns the reserved page with them.
-/
theorem reserving_inside_block_fails :
    (∃ state ent,
      reserveNext .empty eightPagesCall = some state ∧
        ent ∈ state.db ∧
        ent.RangeFree insideBlock ∧
        ¬ ReservationRight state insideBlock) ∧
      (execute reserveNext .empty [eightPagesCall, .mark insideBlock]).map
          (fun state =>
            (state.db.map fun ent =>
                (ent.pagePool.freeNr 0, ent.pagePool.freeBlocks),
              (pfdbBuddyDequeue 2 .kern state.db).map fun dequeued =>
                dequeued.1.toOption)) =
        some ([(0, [⟨6, 0⟩, ⟨4, 1⟩, ⟨0, 2⟩])], some (some 0x80000)) := by
  refine ⟨?_, by decide +kernel⟩
  obtain ⟨state, ent, stepped, member, first, last, blocks⟩ :=
    eightPagesCall_blocks
  have free : ent.RangeFree insideBlock := by
    intro pfn covers
    have place := insideBlock_covers.mp covers
    refine ⟨?_, ⟨0, 2⟩, by simp [blocks], ?_⟩
    · rw [PfdbEnt.Holds, first, last]
      omega
    · rw [first]
      simp only [Block.Contains, Block.size]
      omega
  refine ⟨state, ent, stepped, member, free, fun right => ?_⟩
  have fits : ReserveFits .empty eightPagesCall := trivial
  have ready := dbReady_of_run (.snoc .nil ⟨fits, stepped⟩)
  obtain ⟨db, allocated⟩ := state
  obtain ⟨earlier, later, nodes⟩ := List.append_of_mem member
  simp only at nodes
  subst nodes
  obtain ⟨block, listed, starts⟩ :=
    (ready.rangeHeaded free right).head 0x80001 (insideBlock_covers.mpr rfl)
  have firstPfn : insideBlock.firstPfn = 0x80001 := by decide
  rw [firstPfn, first] at starts
  rw [blocks] at listed
  simp only [List.mem_cons, List.not_mem_nil, or_false] at listed
  rcases listed with rfl | rfl | rfl <;> simp at starts

end RiscvWorkshop.Pfdb
