import Mathlib
import RiscvWorkshop.PageFrameMerge
import RiscvWorkshop.PageFrameUsage
import RiscvWorkshop.PageFrameFind

namespace RiscvWorkshop.Pfdb

open BuddyTiling SearchTree

/-!
# Reserved pages

A reservation takes one page off the pool of its region, and its end gives
the page back.  The page is cut out of its block from the first page of the
block on, so a reservation keeps the pool in order when its page is one that
the page lists link.
-/

/-! ## One page -/

/-- The uses in `PAGE_STATE_UCASE_MASK`. -/
def pageUsages : List PageUsage :=
  [.kern, .kstack, .pgtbl, .slab, .anon, .pcache]

/-- The page passes the three assertions that it is not in use. -/
def PageFrame.idle (pf : PageFrame) : Bool :=
  pf.usecnt == 0 && !pageUsages.any pf.usecase && !pf.used

theorem PageFrame.idle_iff {pf : PageFrame} :
    pf.idle = true ↔
      pf.usecnt = 0 ∧ pf.usecase = (fun _ => false) ∧ pf.used = false := by
  have noUse :
      pageUsages.any pf.usecase = false ↔ pf.usecase = fun _ => false := by
    rw [List.any_eq_false]
    constructor
    · intro none
      funext usage
      refine Bool.eq_false_iff.mpr (none usage ?_)
      cases usage <;> decide
    · intro none usage _
      simp [none]
  rw [PageFrame.idle, Bool.and_eq_true, Bool.and_eq_true, beq_iff_eq,
    Bool.not_eq_true', Bool.not_eq_true', noUse, and_assoc]

/-- The end of `mark_page_frame_reserved`, with the page off the pool. -/
def reservePage
    (pool : PageBuddy)
    (idx : Nat) : PageBuddy :=
  let pool := setupClusteredPages pool idx
  let pool := { pool with availablePages := pool.availablePages - 1 }
  pool.modify idx fun pf => { pf with reserved := true }

/-- `mark_page_frame_reserved` below the lookup of the page. -/
def markPageReserved
    (pool : PageBuddy)
    (idx : Nat) : Option (Except Errno Unit × PageBuddy) :=
  if (pool.array idx).reserved then
    none
  else
    let pool := pool.queueDel (pool.array idx).order idx
    match adjustPageOrder pool idx 0 with
    | none => none
    | some pool =>
        if (pool.array idx).idle then some (.ok (), reservePage pool idx)
        else none

/-- `unmark_page_frame_reserved` below the lookup of the page. -/
def unmarkPageReserved
    (pool : PageBuddy)
    (idx : Nat) : Option (Except Errno Unit × PageBuddy) :=
  if (pool.array idx).reserved then
    if (pool.array idx).idle then
      let pool := pool.modify idx fun pf => { pf with reserved := false }
      match enqueuePageToBuddyPool pool idx with
      | none => none
      | some pool =>
          some
            (.ok (), { pool with availablePages := pool.availablePages + 1 })
    else
      none
  else
    some (.error .enolck, pool)

/--
Find the region of a page frame number, stop where the comparison stops, and
run a pool function there.  The regions come in the order of the tree.
-/
def atLookup
    (operation : PageBuddy → Nat → Option (Except Errno Unit × PageBuddy))
    (pfn : Nat) :
    List PfdbEnt → Option (Except Errno Unit × List PfdbEnt)
  | [] => some (.error .esrch, [])
  | ent :: rest =>
      match pfdbEntCmp (lookupKey pfn) ent with
      | none => none
      | some order =>
          if order = 0 then
            (operation ent.pagePool (pfn - ent.minPfn)).map
              fun (result, pool) =>
                (result, { ent with pagePool := pool } :: rest)
          else
            (atLookup operation pfn rest).map fun (result, later) =>
              (result, ent :: later)

/-- `mark_page_frame_reserved`. -/
def markPageFrameReserved
    (pfn : Nat)
    (db : List PfdbEnt) : Option (Except Errno Unit × List PfdbEnt) :=
  atLookup markPageReserved pfn db

/-- `unmark_page_frame_reserved`. -/
def unmarkPageFrameReserved
    (pfn : Nat)
    (db : List PfdbEnt) : Option (Except Errno Unit × List PfdbEnt) :=
  atLookup unmarkPageReserved pfn db

/-! ## Ranges -/

/-- A range of physical addresses, as the callers name it. -/
structure PhysRange where
  start : Nat
  «end» : Nat

/-- The first page frame number of a range. -/
def PhysRange.firstPfn (range : PhysRange) : Nat :=
  truncateAlign range.start pageSize >>> pageShift

/-- The number of rounds of the loops over the pages of a range. -/
def PhysRange.pages (range : PhysRange) : Nat :=
  (roundupAlign range.end pageSize % 2 ^ 64 -
    truncateAlign range.start pageSize) / pageSize

/-- The loop over the pages of a range; every page has to succeed. -/
def overPages
    (operation : Nat → List PfdbEnt → Option (Except Errno Unit × List PfdbEnt)) :
    Nat → Nat → List PfdbEnt → Option (List PfdbEnt)
  | _, 0, db => some db
  | pfn, pages + 1, db =>
      match operation pfn db with
      | some (.ok (), db) => overPages operation (pfn + 1) pages db
      | _ => none

/-- `pfdb_mark_phys_range_reserved`. -/
def pfdbMarkPhysRangeReserved
    (range : PhysRange)
    (db : List PfdbEnt) : Option (List PfdbEnt) :=
  overPages markPageFrameReserved range.firstPfn range.pages db

/-- `pfdb_unmark_phys_range_reserved`. -/
def pfdbUnmarkPhysRangeReserved
    (range : PhysRange)
    (db : List PfdbEnt) : Option (List PfdbEnt) :=
  overPages unmarkPageFrameReserved range.firstPfn range.pages db

/-! ## The lookup -/

/-- The walk over the regions operates on the region that has the page. -/
theorem atLookup_eq
    {operation : PageBuddy → Nat → Option (Except Errno Unit × PageBuddy)}
    {pfn : Nat}
    {ent : PfdbEnt}
    {later : List PfdbEnt}
    (bound : pfn < pfnLimit)
    (holds : ent.Holds pfn) :
    ∀ {earlier : List PfdbEnt},
      RegionsSorted (earlier ++ ent :: later) →
      atLookup operation pfn (earlier ++ ent :: later) =
        if pfn + 1 = ent.maxPfn then none
        else
          (operation ent.pagePool (pfn - ent.minPfn)).map
            fun (result, pool) =>
              (result, earlier ++ { ent with pagePool := pool } :: later) := by
  intro earlier
  induction earlier with
  | nil =>
      intro sorted
      simp only [List.nil_append, atLookup]
      rw [pfdbEntCmp_lookupKey bound (sorted.ordered ent (by simp))
        (sorted.small ent (by simp)), if_pos holds]
      by_cases last : pfn + 1 = ent.maxPfn
      · rw [if_pos last, if_pos last]
      · rw [if_neg last, if_neg last]
        exact if_pos rfl
  | cons above rest inductionHypothesis =>
      intro sorted
      have restSorted : RegionsSorted (rest ++ ent :: later) :=
        ⟨(List.pairwise_cons.mp sorted.regions).2,
          fun other member => sorted.ordered other (by simp [member]),
          fun other member => sorted.small other (by simp [member])⟩
      have apart :=
        (List.pairwise_cons.mp sorted.regions).1 ent (by simp)
      have outside : ¬ above.Holds pfn := (not_holds_of_ne apart).2 holds
      have before : pfn < above.minPfn ∨ pfn + 1 = pfnLimit :=
        .inl (lt_of_lt_of_le holds.2 apart)
      simp only [List.cons_append, atLookup]
      rw [pfdbEntCmp_lookupKey bound (sorted.ordered above (by simp))
        (sorted.small above (by simp)), if_neg outside, if_pos before]
      simp only [one_ne_zero, if_false]
      rw [inductionHypothesis restSorted]
      split_ifs with last
      · rfl
      · cases operation ent.pagePool (pfn - ent.minPfn) <;> rfl

/-- The walk ends at the region that the search of the tree ends at. -/
theorem atLookup_pfdbFind
    {operation : PageBuddy → Nat → Option (Except Errno Unit × PageBuddy)}
    {tree : NodeTree PfdbEnt}
    {pfn : Nat}
    {ent : PfdbEnt}
    (sorted : RegionsSorted tree.toList)
    (bound : pfn < pfnLimit)
    (found : pfdbFind tree (lookupKey pfn) = some (some ent)) :
    ∃ earlier later,
      tree.toList = earlier ++ ent :: later ∧
        atLookup operation pfn tree.toList =
          (operation ent.pagePool (pfn - ent.minPfn)).map
            fun (result, pool) =>
              (result, earlier ++ { ent with pagePool := pool } :: later) := by
  rw [pfdbFind, sorted.find bound] at found
  cases located : tree.toList.find? (·.Holds pfn) with
  | none =>
      rw [located] at found
      cases found
  | some other =>
      rw [located] at found
      have member := List.mem_of_find?_eq_some located
      have holds : other.Holds pfn := by simpa using List.find?_some located
      simp only [pfdbEntCmp_lookupKey bound (sorted.ordered other member)
        (sorted.small other member), if_pos holds] at found
      by_cases last : pfn + 1 = other.maxPfn
      · rw [if_pos last] at found
        cases found
      · rw [if_neg last] at found
        cases found
        obtain ⟨earlier, later, nodes⟩ := List.append_of_mem member
        rw [nodes] at sorted ⊢
        exact ⟨earlier, later, rfl,
          (atLookup_eq bound holds sorted).trans (if_neg last)⟩

/-! ## What a reservation does to the pool -/

/-- The pool of a region between two calls. -/
structure PoolReady
    (pool : PageBuddy)
    (live : List Block) : Prop where
  sound : PoolSound pool [] live
  merged : pool.Merged
  clear :
    ∀ idx < pool.nrPages, pool.Unreserved idx →
      (∀ block ∈ live, block.start ≠ idx) →
      (pool.array idx).usecase = fun _ => false
  resting :
    ∀ idx, (pool.array idx).reserved = true → (pool.array idx).order = 0

/-- The pool after one page became reserved, or ceased to be. -/
structure ReservationSet
    (before after : PageBuddy)
    (idx : Nat)
    (value : Bool) : Prop where
  nrPages : after.nrPages = before.nrPages
  pfn : ∀ other, (after.array other).pfn = (before.array other).pfn
  idle : ∀ other, (after.array other).idle = (before.array other).idle
  reserved :
    ∀ other,
      (after.array other).reserved =
        if other = idx then value else (before.array other).reserved

/-- A page that becomes reserved is one available page less. -/
theorem ReservationSet.card_of_reserved
    {before after : PageBuddy}
    {idx : Nat}
    (set : ReservationSet before after idx true)
    (bound : idx < before.nrPages)
    (unreserved : before.Unreserved idx) :
    ((Finset.range after.nrPages).filter after.Unreserved).card =
      ((Finset.range before.nrPages).filter before.Unreserved).card - 1 := by
  have fewer :
      (Finset.range after.nrPages).filter after.Unreserved =
        ((Finset.range before.nrPages).filter before.Unreserved).erase idx := by
    ext other
    simp only [Finset.mem_filter, Finset.mem_erase, Finset.mem_range,
      PageBuddy.Unreserved, set.nrPages, set.reserved]
    by_cases same : other = idx <;> simp [same]
  rw [fewer, Finset.card_erase_of_mem]
  simp [bound, unreserved]

/-- A page that ceases to be reserved is one available page more. -/
theorem ReservationSet.card_of_unreserved
    {before after : PageBuddy}
    {idx : Nat}
    (set : ReservationSet before after idx false)
    (bound : idx < before.nrPages)
    (isReserved : (before.array idx).reserved = true) :
    ((Finset.range after.nrPages).filter after.Unreserved).card =
      ((Finset.range before.nrPages).filter before.Unreserved).card + 1 := by
  have more :
      (Finset.range after.nrPages).filter after.Unreserved =
        insert idx
          ((Finset.range before.nrPages).filter before.Unreserved) := by
    ext other
    simp only [Finset.mem_filter, Finset.mem_insert, Finset.mem_range,
      PageBuddy.Unreserved, set.nrPages, set.reserved]
    by_cases same : other = idx <;> simp [same, bound]
  rw [more, Finset.card_insert_of_notMem]
  simp [PageBuddy.Unreserved, isReserved]

/-- The number of available pages is no part of the invariant of a pool. -/
theorem PoolSound.withAvailable
    {pool : PageBuddy}
    {hand live : List Block}
    (sound : PoolSound pool hand live)
    (availablePages : Nat) :
    PoolSound { pool with availablePages } hand live :=
  ⟨sound.tiles, sound.counts, sound.freeHead, sound.liveHead, sound.orders,
    sound.usedHead, sound.countedHead⟩

/-- The page in hand leaves the pool when it becomes reserved. -/
theorem PoolSound.reserve
    {pool : PageBuddy}
    {live : List Block}
    {idx : Nat}
    (sound : PoolSound pool [⟨idx, 0⟩] live) :
    PoolSound (pool.modify idx fun pf => { pf with reserved := true })
      [] live := by
  have inHand : (Block.mk idx 0).Contains idx := Block.contains_start ⟨idx, 0⟩
  have elsewhere : ∀ block ∈ pool.freeBlocks ++ live, block.start ≠ idx :=
    fun block member => sound.start_ne_of_hand member inHand
  have unreservedElsewhere : ∀ other,
      (pool.modify idx fun pf => { pf with reserved := true }).Unreserved
          other ↔ other ≠ idx ∧ pool.Unreserved other := by
    intro other
    by_cases same : other = idx <;> simp [PageBuddy.Unreserved, same]
  refine ⟨?_, sound.counts, ?_, ?_, ?_, ?_, ?_⟩
  · exact Tiles.removePage sound.tiles fun other _ => unreservedElsewhere other
  · intro block member
    have different := elsewhere block (List.mem_append_left _ member)
    simpa [different] using sound.freeHead block member
  · intro block member
    have different := elsewhere block (List.mem_append_right _ member)
    simpa [different] using sound.liveHead block member
  · exact fun block member =>
      sound.orders block (List.mem_append_right _ member)
  · intro other bound unreserved isUsed
    obtain ⟨different, older⟩ := (unreservedElsewhere other).mp unreserved
    rw [PageBuddy.modify_array_of_ne different] at isUsed
    obtain ⟨block, member, starts⟩ :=
      sound.usedHead other bound older isUsed
    rcases List.mem_cons.mp member with rfl | others
    · exact absurd starts.symm different
    · exact ⟨block, others, starts⟩
  · intro other counted
    by_cases same : other = idx
    · subst same
      simp only [PageBuddy.modify_array_self] at counted
      exact sound.countedHead other counted
    · rw [PageBuddy.modify_array_of_ne same] at counted
      exact sound.countedHead other counted

/-- The pool after a page of order zero is reserved. -/
theorem reservePage_of_single
    {pool : PageBuddy}
    {idx : Nat}
    (single : (pool.array idx).order = 0) :
    reservePage pool idx =
      { pool with
        availablePages := pool.availablePages - 1
        array := fun other =>
          if other = idx then
            { pool.array idx with
              clustered := false, headp := none, reserved := true }
          else pool.array other } := by
  simp only [reservePage, setupClusteredPages, if_pos single,
    PageBuddy.modify, PageBuddy.mk.injEq, true_and]
  funext other
  by_cases same : other = idx <;> simp [same]

/-- Giving an idle page back leaves every page as idle as it was. -/
theorem enqueuePageToBuddyPool_idle
    {pool after : PageBuddy}
    {idx : Nat}
    (executed : enqueuePageToBuddyPool pool idx = some after)
    (idle : (pool.array idx).idle = true)
    (other : Nat) :
    (after.array other).idle = (pool.array other).idle := by
  obtain ⟨endIdx, merged, looped, rfl⟩ :=
    enqueuePageToBuddyPool_shape executed
  have sameBut := SameButOrders.enqueueLoop looped
  have cleared :
      (((clearClusteredPages merged endIdx).queueAdd
          ((clearClusteredPages merged endIdx).array endIdx).order
          endIdx).array other).idle = (merged.array other).idle := by
    simp only [PageBuddy.queueAdd, clearClusteredPages,
      PageBuddy.modifyCluster]
    split <;> rfl
  rw [cleared, sameBut.frame other]
  by_cases same : other = idx
  · subst same
    rw [idle, PageFrame.idle_iff]
    obtain ⟨unused, -, -⟩ := PageFrame.idle_iff.mp idle
    simp [unmarkPageUsage, unused]
  · simp [unmarkPageUsage, same, PageFrame.idle]

namespace PoolReady

variable {pool : PageBuddy}
variable {live : List Block}

/-- No block that is handed out starts at a page of a free block. -/
theorem start_ne_of_free
    {block other : Block}
    {idx : Nat}
    (ready : PoolReady pool live)
    (listed : block ∈ pool.freeBlocks)
    (contains : block.Contains idx)
    (isLive : other ∈ live) :
    other.start ≠ idx := by
  have allApart := ready.sound.tiles.apart
  rw [List.nil_append, List.pairwise_append] at allApart
  have apart := allApart.2.2 block listed other isLive
  rintro rfl
  exact apart.not_both contains other.contains_start

/-- Nobody uses a page of a free block. -/
theorem idle_of_free
    {block : Block}
    {idx : Nat}
    (ready : PoolReady pool live)
    (listed : block ∈ pool.freeBlocks)
    (contains : block.Contains idx) :
    (pool.array idx).idle = true := by
  have member : block ∈ [] ++ (pool.freeBlocks ++ live) := by simp [listed]
  have inside := ready.sound.tiles.inside block member
  have bound : idx < pool.nrPages := lt_of_lt_of_le contains.2 inside
  have unreserved : pool.Unreserved idx :=
    ready.sound.tiles.available_of_member member contains
  have notLive : ∀ other ∈ live, other.start ≠ idx :=
    fun other isLive => ready.start_ne_of_free listed contains isLive
  refine PageFrame.idle_iff.mpr
    ⟨?_, ready.clear idx bound unreserved notLive, ?_⟩
  · by_contra counted
    obtain ⟨other, isLive, starts⟩ := ready.sound.countedHead idx counted
    exact notLive other isLive starts
  · rw [Bool.eq_false_iff]
    intro isUsed
    obtain ⟨other, isLive, starts⟩ :=
      ready.sound.usedHead idx bound unreserved isUsed
    exact notLive other isLive starts

/-- A page is free when it is neither reserved nor handed out. -/
theorem free_iff
    {page : Nat}
    (ready : PoolReady pool live)
    (bound : page < pool.nrPages) :
    (∃ block ∈ pool.freeBlocks, block.Contains page) ↔
      pool.Unreserved page ∧ ∀ block ∈ live, ¬ block.Contains page := by
  have tiles := ready.sound.tiles
  rw [List.nil_append] at tiles
  constructor
  · rintro ⟨block, listed, contains⟩
    exact tiles.part.available_of_member listed contains
  · intro left
    exact tiles.part.exists_member bound left

/-- The reserved pages and the blocks handed out determine the free blocks. -/
theorem freeBlocks_unique
    {other : PageBuddy}
    (ready : PoolReady pool live)
    (otherReady : PoolReady other live)
    (nrPages : other.nrPages = pool.nrPages)
    (reserved :
      ∀ page, (other.array page).reserved = (pool.array page).reserved)
    (block : Block) :
    block ∈ other.freeBlocks ↔ block ∈ pool.freeBlocks := by
  have orders : ∀ (pool : PageBuddy), ∀ block ∈ pool.freeBlocks,
      block.order ≤ pagePoolMaxOrder - 1 :=
    fun pool block member => Nat.le_pred_of_lt (mem_blocksOf.mp member).1
  have tiles := ready.sound.tiles
  have otherTiles := otherReady.sound.tiles
  rw [List.nil_append] at tiles otherTiles
  have otherPart :
      Tiles other.freeBlocks pool.nrPages fun page =>
        pool.Unreserved page ∧ ∀ block ∈ live, ¬ block.Contains page := by
    rw [← nrPages]
    refine otherTiles.part.congr fun page _ => ?_
    simp only [PageBuddy.Unreserved, reserved]
  exact ⟨otherReady.merged.unique otherPart (orders other) tiles.part
      ready.merged (orders pool),
    ready.merged.unique tiles.part (orders pool) otherPart
      otherReady.merged (orders other)⟩

/-- The first page of a free block is cut out of it and reserved. -/
theorem mark
    {idx order : Nat}
    (ready : PoolReady pool live)
    (listed : (⟨idx, order⟩ : Block) ∈ pool.freeBlocks) :
    ∃ after,
      markPageReserved pool idx = some (.ok (), after) ∧
        PoolReady after live ∧
        ReservationSet pool after idx true ∧
        after.availablePages = pool.availablePages - 1 := by
  have idle := ready.idle_of_free listed (Block.contains_start ⟨idx, order⟩)
  have unreserved : pool.Unreserved idx :=
    ready.sound.tiles.available_of_member
      (show (⟨idx, order⟩ : Block) ∈ [] ++ (pool.freeBlocks ++ live) by
        simp [listed])
      (Block.contains_start _)
  obtain ⟨sameOrder, notUsed⟩ := ready.sound.freeHead _ listed
  simp only at sameOrder notUsed
  have unlinked := ready.sound.unlink listed
  obtain ⟨adjusted, executed, adjustedSound, adjustedOrder, region⟩ :=
    adjustPageOrder_sound (Nat.zero_le order) unlinked sameOrder notUsed
  obtain ⟨looped, -⟩ := adjustPageOrder_shape executed
  have sameFrames :=
    (SameButOrders.queueDel pool order idx).trans
      (SameButOrders.adjustPageOrderLoop looped)
  have unlinkedMerged : (pool.queueDel order idx).Merged := by
    refine ready.merged.mono fun block member => ?_
    obtain ⟨bound, inList⟩ := mem_blocksOf.mp member
    exact mem_blocksOf.mpr ⟨bound, List.mem_of_mem_erase inList⟩
  have adjustedMerged : adjusted.Merged := by
    have fromOrder :
        adjustPageOrderLoop 0 idx order (pool.queueDel order idx) =
          some adjusted := by
      rw [← looped]
      exact congrArg
        (adjustPageOrderLoop 0 idx · (pool.queueDel order idx)) sameOrder.symm
    exact adjustPageOrderLoop_merged unlinked notUsed unlinkedMerged fromOrder
  have sameIdle : ∀ other,
      (adjusted.array other).idle = (pool.array other).idle := by
    intro other
    rw [sameFrames.frame other]
    rfl
  have clustered := SameBlocks.setupClusteredPages adjusted idx
  have shape := reservePage_of_single adjustedOrder
  refine ⟨reservePage adjusted idx, ?_, ⟨?_, ?_, ?_, ?_⟩,
    ⟨?_, ?_, ?_, ?_⟩, ?_⟩
  · simp only [markPageReserved, sameOrder, executed, sameIdle idx, idle,
      if_true]
    rw [if_neg (Bool.eq_false_iff.mp unreserved)]
  · exact ((adjustedSound.of_sameBlocks clustered).withAvailable _).reserve
  · rw [shape]
    exact adjustedMerged
  · intro other bound nowUnreserved notLive
    have different : other ≠ idx := by
      rintro rfl
      simp [PageBuddy.Unreserved, shape] at nowUnreserved
    simp only [PageBuddy.Unreserved, shape, if_neg different] at nowUnreserved
    have older : pool.Unreserved other :=
      (region.reserved other).symm.trans nowUnreserved
    rw [shape] at bound
    have clear := ready.clear other (region.nrPages ▸ bound) older notLive
    simp only [shape, if_neg different]
    rw [sameFrames.frame other]
    exact clear
  · intro other nowReserved
    by_cases same : other = idx
    · subst same
      simpa [shape] using adjustedOrder
    · simp only [shape, if_neg same] at nowReserved ⊢
      have older : (pool.array other).reserved = true :=
        (region.reserved other).symm.trans nowReserved
      exact (region.reservedOrder other older).trans
        (ready.resting other older)
  · rw [shape]
    exact region.nrPages
  · intro other
    refine Eq.trans ?_ (region.pfn other)
    by_cases same : other = idx <;> simp [shape, same]
  · intro other
    rw [← sameIdle other]
    by_cases same : other = idx <;> simp [shape, same, PageFrame.idle]
  · intro other
    by_cases same : other = idx
    · simp [shape, same]
    · simp only [shape, if_neg same]
      exact region.reserved other
  · rw [shape]
    exact congrArg (· - 1) region.availablePages

/-- A reserved page that is idle goes back to the pool. -/
theorem unmark
    {idx : Nat}
    (ready : PoolReady pool live)
    (bound : idx < pool.nrPages)
    (isReserved : (pool.array idx).reserved = true)
    (idle : (pool.array idx).idle = true) :
    ∃ after,
      unmarkPageReserved pool idx = some (.ok (), after) ∧
        PoolReady after live ∧
        ReservationSet pool after idx false ∧
        after.availablePages = pool.availablePages + 1 := by
  have orderZero := ready.resting idx isReserved
  have unreserved := ready.sound.unreserve bound isReserved
  have unreservedOrder :
      ((pool.modify idx fun pf =>
        { pf with reserved := false }).array idx).order = 0 := by
    simp [orderZero]
  have unreservedIdle : ∀ other,
      ((pool.modify idx fun pf =>
        { pf with reserved := false }).array other).idle =
          (pool.array other).idle := by
    intro other
    by_cases same : other = idx <;> simp [same, PageFrame.idle]
  obtain ⟨linked, executed, linkedSound, region⟩ :=
    enqueuePageToBuddyPool_sound unreserved unreservedOrder
  obtain ⟨-, clearPage, clearElsewhere⟩ :=
    enqueuePageToBuddyPool_usage executed
  have reservedNow : ∀ other,
      (linked.array other).reserved =
        if other = idx then false else (pool.array other).reserved := by
    intro other
    refine (region.reserved other).trans ?_
    by_cases same : other = idx <;> simp [same]
  refine ⟨{ linked with availablePages := linked.availablePages + 1 }, ?_,
    ⟨linkedSound.withAvailable _, ?_, ?_, ?_⟩,
    ⟨region.nrPages, ?_, ?_, reservedNow⟩,
    congrArg (· + 1) region.availablePages⟩
  · simp only [unmarkPageReserved, isReserved, idle, if_true, executed]
  · have unreservedMerged :
        (pool.modify idx fun pf => { pf with reserved := false }).Merged :=
      ready.merged
    have linkedMerged : linked.Merged :=
      enqueuePageToBuddyPool_merged unreserved unreservedOrder
        unreservedMerged executed
    exact linkedMerged
  · intro other otherBound nowUnreserved notLive
    by_cases same : other = idx
    · subst same
      exact clearPage
    · have older : pool.Unreserved other := by
        simpa only [PageBuddy.Unreserved, reservedNow, if_neg same]
          using nowUnreserved
      refine (clearElsewhere other same).trans ?_
      rw [PageBuddy.modify_array_of_ne same]
      exact ready.clear other (region.nrPages ▸ otherBound) older notLive
  · intro other nowReserved
    have different : other ≠ idx := by
      rintro rfl
      simp [reservedNow] at nowReserved
    have older : (pool.array other).reserved = true := by
      simpa only [reservedNow, if_neg different] using nowReserved
    refine (region.reservedOrder other ?_).trans ?_
    · rw [PageBuddy.modify_array_of_ne different]
      exact older
    · rw [PageBuddy.modify_array_of_ne different]
      exact ready.resting other older
  · intro other
    refine (region.pfn other).trans ?_
    by_cases same : other = idx <;> simp [same]
  · intro other
    rw [enqueuePageToBuddyPool_idle executed
      ((unreservedIdle idx).trans idle) other]
    exact unreservedIdle other

end PoolReady

end RiscvWorkshop.Pfdb
