import Mathlib
import RiscvWorkshop.PageFrameShape

namespace RiscvWorkshop.Pfdb

open BuddyTiling

/-!
# The per-usage page counters of a region

An allocation adds the pages of its block to the counter of its usage, and the
return of the block subtracts them again, by the state bits of the head page.
The registration of a region initialises neither the counters nor these bits:
what the counters show depends on the bytes that the memory held before.
-/

/-- The database, with the usage for which each page was handed out last. -/
structure PfdbUsageState where
  pfdb : PfdbState
  usageOf : Nat → PageUsage

/-- The empty page frame database; no page was handed out yet. -/
def PfdbUsageState.empty : PfdbUsageState :=
  { pfdb := .empty, usageOf := fun _ => .kern }

/-- Record the usage of an allocation that succeeded. -/
def recordUsage
    (usage : PageUsage)
    (usageOf : Nat → PageUsage) :
    Except Errno Nat → Nat → PageUsage
  | .ok pfn => Function.update usageOf pfn usage
  | .error _ => usageOf

/-- One call of a run, with the record of the usages. -/
def pfdbUsageNext (state : PfdbUsageState) :
    PfdbCall → Option PfdbUsageState
  | .dequeue order usage =>
      (pfdbBuddyDequeue order usage state.pfdb.db).map fun (result, db) =>
        { pfdb :=
            { db
              allocated := recordDequeue order state.pfdb.allocated result }
          usageOf := recordUsage usage state.usageOf result }
  | call =>
      (pfdbNext state.pfdb call).map fun pfdb => { state with pfdb }

/-- The pages of the allocated blocks of a region that have a usage. -/
def PfdbEnt.pagesUsedFor
    (ent : PfdbEnt)
    (state : PfdbUsageState)
    (usage : PageUsage) : Nat :=
  ((state.pfdb.allocated.filter fun held =>
    ent.Holds held.pfn ∧ state.usageOf held.pfn = usage).map
      fun held => 2 ^ held.order).sum

/-- The usable pages of a region whose memory has a state bit of a usage set. -/
def stalePages
    (inUse : Nat → Bool)
    (raw : RawMemory)
    (usage : PageUsage)
    (pages : List Nat) : Nat :=
  pages.countP fun idx => !inUse idx && (raw.frames idx).usecase usage

/--
The memory of a region shows, in each counter, the number of usable pages whose
state bit of that usage is set.  Memory filled with zeros does.
-/
def CountersFit
    (sizes : StructSizes)
    (region : PhysRegion)
    (raw : RawMemory) : Prop :=
  ∀ usage : PageUsage,
    raw.usagePages usage =
      UInt64.ofNat
        (stalePages (regionLayout sizes region).inUse raw usage
          (List.range (regionLayout sizes region).nrPages))

/-- Every region that a call registers has memory with fitting counters. -/
def MemoryFits (_ : PfdbUsageState) : PfdbCall → Prop
  | .add sizes region raw => CountersFit sizes region raw
  | _ => True

/-! ## What the pool functions do to the counters -/

/-- The counters of a pool after a page with noted uses is given back. -/
def uncounted
    (pool : PageBuddy)
    (idx : Nat)
    (usage : PageUsage) : UInt64 :=
  if (pool.array idx).usecase usage then
    pool.usagePages usage - UInt64.ofNat (2 ^ (pool.array idx).order)
  else
    pool.usagePages usage

/-- `enqueue_page_to_buddy_pool` drops the noted uses of its page only. -/
theorem enqueuePageToBuddyPool_usage
    {pool after : PageBuddy}
    {idx : Nat}
    (executed : enqueuePageToBuddyPool pool idx = some after) :
    after.usagePages = uncounted pool idx ∧
      (after.array idx).usecase = (fun _ => false) ∧
      ∀ other, other ≠ idx →
        (after.array other).usecase = (pool.array other).usecase := by
  obtain ⟨endIdx, merged, looped, rfl⟩ :=
    enqueuePageToBuddyPool_shape executed
  have sameBut := SameButOrders.enqueueLoop looped
  have cleared : ∀ other,
      ((clearClusteredPages merged endIdx).array other).usecase =
        (merged.array other).usecase := by
    intro other
    simp only [clearClusteredPages, PageBuddy.modifyCluster]
    split <;> rfl
  refine ⟨?_, ?_, fun other different => ?_⟩
  · refine sameBut.usagePages.trans ?_
    funext usage
    simp [unmarkPageUsage, uncounted, PageBuddy.modify, Nat.one_shiftLeft]
  · refine (cleared idx).trans ?_
    rw [sameBut.frame idx]
    simp [unmarkPageUsage]
  · refine (cleared other).trans ?_
    rw [sameBut.frame other]
    simp [unmarkPageUsage, different]

/-- Handing out a page notes its use and counts its pages. -/
theorem handOutPage_usage
    (pool : PageBuddy)
    (idx : Nat)
    (usage : PageUsage) :
    (handOutPage pool idx usage).usagePages =
        Function.update pool.usagePages usage
          (pool.usagePages usage +
            UInt64.ofNat (2 ^ (pool.array idx).order)) ∧
      ((handOutPage pool idx usage).array idx).usecase =
        Function.update (pool.array idx).usecase usage true ∧
      ∀ other, other ≠ idx →
        ((handOutPage pool idx usage).array other).usecase =
          (pool.array other).usecase := by
  have sameUsage :
      (setupClusteredPages pool idx).usagePages = pool.usagePages := by
    unfold setupClusteredPages
    split <;> rfl
  have sameUsecase : ∀ other,
      ((setupClusteredPages pool idx).array other).usecase =
        (pool.array other).usecase := by
    intro other
    unfold setupClusteredPages
    split
    · by_cases same : other = idx <;> simp [same]
    · simp only [PageBuddy.modifyCluster]
      split <;> rfl
  have sameOrder :=
    (SameBlocks.setupClusteredPages pool idx).order idx
  refine ⟨?_, ?_, fun other different => ?_⟩
  · simp [handOutPage, markPageUsage, PageBuddy.modify, sameUsage, sameOrder,
      Nat.one_shiftLeft]
  · simp [handOutPage, markPageUsage, PageBuddy.modify, sameUsecase]
  · simp [handOutPage, markPageUsage, PageBuddy.modify, different,
      sameUsecase]

/-! ## The invariant of one pool -/

/-- The pages of the blocks of a list that have a usage. -/
def usedPages
    (usageAt : Nat → PageUsage)
    (usage : PageUsage)
    (live : List Block) : Nat :=
  ((live.filter fun block => usageAt block.start = usage).map
    Block.size).sum

/-- The counters and the state bits tell the usages of the live blocks. -/
structure UsageSound
    (pool : PageBuddy)
    (live : List Block)
    (usageAt : Nat → PageUsage) : Prop where
  counted :
    ∀ usage,
      pool.usagePages usage = UInt64.ofNat (usedPages usageAt usage live)
  marked :
    ∀ block ∈ live, ∀ usage,
      (pool.array block.start).usecase usage =
        decide (usageAt block.start = usage)
  unmarked :
    ∀ idx, pool.Unreserved idx →
      (∀ block ∈ live, block.start ≠ idx) →
      ∀ usage, (pool.array idx).usecase usage = false

@[simp] theorem usedPages_cons
    (usageAt : Nat → PageUsage)
    (usage : PageUsage)
    (block : Block)
    (live : List Block) :
    usedPages usageAt usage (block :: live) =
      (if usageAt block.start = usage then block.size else 0) +
        usedPages usageAt usage live := by
  by_cases same : usageAt block.start = usage <;>
    simp [usedPages, same]

theorem usedPages_perm
    {usageAt : Nat → PageUsage}
    {usage : PageUsage}
    {first second : List Block}
    (permuted : first.Perm second) :
    usedPages usageAt usage first = usedPages usageAt usage second :=
  ((permuted.filter _).map _).sum_eq

theorem usedPages_congr
    {first second : Nat → PageUsage}
    {live : List Block}
    (same : ∀ block ∈ live, first block.start = second block.start)
    (usage : PageUsage) :
    usedPages first usage live = usedPages second usage live := by
  have sameFilter :
      live.filter (fun block => first block.start = usage) =
        live.filter (fun block => second block.start = usage) :=
    List.filter_congr fun block member => by rw [same block member]
  rw [usedPages, usedPages, sameFilter]

namespace UsageSound

variable {pool after : PageBuddy}
variable {live : List Block}
variable {usageAt : Nat → PageUsage}

/-- Use counts have no part in the invariant. -/
theorem setUsecnt
    (usages : UsageSound pool live usageAt)
    (idx : Nat)
    (usecnt : Int32) :
    UsageSound (pool.modify idx fun pf => { pf with usecnt }) live usageAt := by
  have sameUsecase : ∀ other,
      ((pool.modify idx fun pf => { pf with usecnt }).array other).usecase =
        (pool.array other).usecase := by
    intro other
    by_cases same : other = idx <;> simp [same]
  have sameReserved : ∀ other,
      ((pool.modify idx fun pf => { pf with usecnt }).array other).reserved =
        (pool.array other).reserved := by
    intro other
    by_cases same : other = idx <;> simp [same]
  refine ⟨usages.counted, fun block member usage => ?_,
    fun other unreserved notHead usage => ?_⟩
  · rw [sameUsecase]
    exact usages.marked block member usage
  · rw [sameUsecase]
    refine usages.unmarked other ?_ notHead usage
    rwa [PageBuddy.Unreserved, sameReserved] at unreserved

/-- Giving a live block back subtracts what its allocation added. -/
theorem giveBack
    {block : Block}
    (usages : UsageSound pool live usageAt)
    (sound : PoolSound pool [] live)
    (member : block ∈ live)
    (sameReserved :
      ∀ idx, (after.array idx).reserved = (pool.array idx).reserved)
    (executed : enqueuePageToBuddyPool pool block.start = some after) :
    UsageSound after (live.erase block) usageAt := by
  obtain ⟨counters, own, others⟩ := enqueuePageToBuddyPool_usage executed
  have headOrder := (sound.liveHead block member).1
  have moved : live.Perm (block :: live.erase block) :=
    List.perm_cons_erase member
  have otherStart : ∀ other ∈ live.erase block, other.start ≠ block.start :=
    fun other otherMember =>
      (sound.release member).start_ne_of_hand
        (List.mem_append_right _ otherMember) block.contains_start
  refine ⟨fun usage => ?_, fun other otherMember usage => ?_,
    fun idx unreserved notHead usage => ?_⟩
  · have counted := usages.counted usage
    rw [usedPages_perm moved, usedPages_cons] at counted
    rw [counters, uncounted, usages.marked block member usage, headOrder]
    by_cases same : usageAt block.start = usage
    · simp only [same, decide_true, if_true] at counted ⊢
      rw [counted, UInt64.ofNat_add, Block.size, UInt64.add_comm,
        UInt64.add_sub_cancel]
    · simp only [same, decide_false, if_false] at counted ⊢
      simpa using counted
  · rw [others _ (otherStart other otherMember)]
    exact usages.marked other (List.mem_of_mem_erase otherMember) usage
  · by_cases same : idx = block.start
    · rw [same, own]
    · rw [others idx same]
      refine usages.unmarked idx ?_ (fun other otherMember => ?_) usage
      · rwa [PageBuddy.Unreserved, sameReserved] at unreserved
      · rcases List.mem_cons.mp (moved.mem_iff.mp otherMember) with rfl | older
        · exact fun sameStart => same sameStart.symm
        · exact notHead other older

/-- Handing out a free block counts its pages for the new usage. -/
theorem handOut
    {order pfn idx : Nat}
    {usage : PageUsage}
    (usages : UsageSound pool live usageAt)
    (sound : PoolSound pool [] live)
    (numbered : ∀ idx, (pool.array idx).pfn = pfn + idx)
    (region : SameRegion pool after)
    (taken : Taken pool order usage (.ok (pfn + idx)) after) :
    UsageSound after (⟨idx, order⟩ :: live)
      (Function.update usageAt idx usage) := by
  generalize resultShape : Except.ok (pfn + idx) = result at taken
  cases taken with
  | failed code =>
      cases resultShape
  | @taken curOrder headIdx rest adjusted above bound listed adjustedOrder =>
      obtain ⟨looped, headOrder⟩ := adjustPageOrder_shape adjustedOrder
      have sameBut :=
        (SameButOrders.queueGetTop pool curOrder rest).trans
          (.adjustPageOrderLoop looped)
      obtain ⟨counters, own, others⟩ :=
        handOutPage_usage adjusted headIdx usage
      -- the page frame number in the result tells which page was taken
      obtain rfl : idx = headIdx := by
        have samePfn := Except.ok.inj resultShape
        rw [region.pfn, numbered] at samePfn
        omega
      have inFree : (⟨idx, curOrder⟩ : Block) ∈ pool.freeBlocks :=
        mem_blocksOf.mpr ⟨bound, by simp [listed]⟩
      have otherStart : ∀ block ∈ live, block.start ≠ idx :=
        fun block member =>
          (sound.take bound listed).start_ne_of_hand
            (List.mem_append_right _ member) (Block.contains_start _)
      have sameUsecase : ∀ other,
          (adjusted.array other).usecase = (pool.array other).usecase :=
        fun other => by rw [sameBut.frame other]
      have unreserved : pool.Unreserved idx :=
        sound.tiles.available_of_member
          (show (⟨idx, curOrder⟩ : Block) ∈ _ by simp [inFree])
          (Block.contains_start _)
      have sameUsage : ∀ block ∈ live,
          Function.update usageAt idx usage block.start =
            usageAt block.start :=
        fun block member => by simp [otherStart block member]
      refine ⟨fun other => ?_, fun block member other => ?_,
        fun page pageUnreserved notHead other => ?_⟩
      · rw [counters, headOrder, usedPages_cons, Function.update_self,
          usedPages_congr sameUsage, sameBut.usagePages]
        by_cases same : usage = other
        · subst same
          rw [Function.update_self, if_pos rfl, usages.counted,
            UInt64.ofNat_add, UInt64.add_comm, Block.size]
        · rw [Function.update_of_ne (Ne.symm same), if_neg same, Nat.zero_add,
            usages.counted]
      · rcases List.mem_cons.mp member with rfl | older
        · rw [own, sameUsecase]
          by_cases same : other = usage
          · simp [same]
          · have noted :=
              usages.unmarked idx unreserved otherStart other
            simp [same, noted, Ne.symm same]
        · rw [others _ (otherStart block older), sameUsecase,
            sameUsage block older]
          exact usages.marked block older other
      · have different : page ≠ idx :=
          fun same => notHead _ (List.mem_cons_self ..) same.symm
        rw [others page different, sameUsecase]
        refine usages.unmarked page ?_
          (fun block member => notHead block (List.mem_cons_of_mem _ member))
          other
        rwa [PageBuddy.Unreserved, region.reserved] at pageUnreserved

end UsageSound

/-! ## Registration -/

/-- The counters while pages of a region are given to its pool. -/
structure UsageAdding
    (inUse : Nat → Bool)
    (raw : RawMemory)
    (nrPages : Nat)
    (coming : List Nat)
    (pool : PageBuddy) : Prop where
  counted :
    ∀ usage,
      pool.usagePages usage - UInt64.ofNat (stalePages inUse raw usage coming) =
        raw.usagePages usage -
          UInt64.ofNat (stalePages inUse raw usage (List.range nrPages))
  stale :
    ∀ idx, (pool.array idx).reserved = true →
      (pool.array idx).usecase = (raw.frames idx).usecase
  cleared :
    ∀ idx, pool.Unreserved idx → (pool.array idx).usecase = fun _ => false

/-- Each usable page that looked used before is subtracted once. -/
theorem addUsablePages_usage
    {inUse : Nat → Bool}
    {raw : RawMemory}
    {nrPages minPfn : Nat}
    {after : PageBuddy}
    (added :
      addUsablePages inUse (List.range nrPages)
        (initPool raw nrPages minPfn) = some after) :
    UsageAdding inUse raw nrPages [] after := by
  refine (addUsablePages_invariant (UsageAdding inUse raw nrPages) ?_ ?_
    (regionReady_initPool raw nrPages minPfn) ?_ List.nodup_range
    (fun _ member => ⟨List.mem_range.mp member, rfl, rfl⟩) added).2
  · intro pool idx rest adding occupied
    refine ⟨fun usage => ?_, adding.stale, adding.cleared⟩
    simpa [stalePages, occupied] using adding.counted usage
  · intro pool linked idx rest ready adding bound isReserved orderZero usable
      executed
    obtain ⟨counters, own, others⟩ := enqueuePageToBuddyPool_usage executed
    obtain ⟨_, sameExecuted, region, _⟩ :=
      ready.addPage bound isReserved orderZero
    rw [executed] at sameExecuted
    cases sameExecuted
    refine ⟨fun usage => ?_, fun other stillReserved => ?_,
      fun other unreserved => ?_⟩
    · have before := adding.counted usage
      simp only [stalePages, List.countP_cons, usable, Bool.not_false,
        Bool.true_and] at before ⊢
      rw [counters, ← before]
      simp only [uncounted, PageBuddy.modify_array_self, orderZero, pow_zero,
        adding.stale idx isReserved]
      by_cases noted : (raw.frames idx).usecase usage = true
      · simp only [noted, if_true, UInt64.ofNat_add]
        show pool.usagePages usage - 1 - _ = pool.usagePages usage - (_ + 1)
        grind
      · simp [noted, PageBuddy.modify]
    · by_cases same : other = idx
      · subst same
        have opened := (region.reserved other).symm.trans stillReserved
        simp at opened
      · have wasReserved := (region.reserved other).symm.trans stillReserved
        rw [PageBuddy.modify_array_of_ne same] at wasReserved
        refine (others other same).trans ?_
        rw [PageBuddy.modify_array_of_ne same]
        exact adding.stale other wasReserved
    · by_cases same : other = idx
      · subst same
        exact own
      · have wasUnreserved := (region.reserved other).symm.trans unreserved
        rw [PageBuddy.modify_array_of_ne same] at wasUnreserved
        refine (others other same).trans ?_
        rw [PageBuddy.modify_array_of_ne same]
        exact adding.cleared other wasUnreserved
  · refine ⟨fun usage => rfl, fun idx _ => rfl, fun idx unreserved => ?_⟩
    simp [PageBuddy.Unreserved, initPool, initFrame] at unreserved

/-- A new region shows zero for a usage exactly when its memory fitted. -/
theorem addUsablePages_usage_zero_iff
    {inUse : Nat → Bool}
    {raw : RawMemory}
    {nrPages minPfn : Nat}
    {after : PageBuddy}
    (added :
      addUsablePages inUse (List.range nrPages)
        (initPool raw nrPages minPfn) = some after)
    (usage : PageUsage) :
    after.usagePages usage = 0 ↔
      raw.usagePages usage =
        UInt64.ofNat (stalePages inUse raw usage (List.range nrPages)) := by
  have counted := (addUsablePages_usage added).counted usage
  simp only [stalePages, List.countP_nil] at counted
  rw [stalePages]
  generalize UInt64.ofNat (List.countP _ _) = stale at counted ⊢
  have shown : after.usagePages usage = raw.usagePages usage - stale :=
    (UInt64.sub_zero _).symm.trans counted
  rw [shown, UInt64.sub_eq_iff_eq_add, UInt64.zero_add]

/-! ## Runs -/

/-- The record of the usages, by the page index in a region. -/
def PfdbEnt.usageAt
    (ent : PfdbEnt)
    (usageOf : Nat → PageUsage)
    (idx : Nat) : PageUsage :=
  usageOf (ent.minPfn + idx)

/-- The invariant of the counters of one region. -/
structure EntUsageSound
    (ent : PfdbEnt)
    (allocated : List Allocation)
    (usageOf : Nat → PageUsage) : Prop where
  usages :
    UsageSound ent.pagePool (ent.liveBlocks allocated) (ent.usageAt usageOf)
  small : ent.pagePool.nrPages < 2 ^ 64

/-- Only the recorded usages of live blocks matter. -/
theorem UsageSound.congr
    {pool : PageBuddy}
    {live : List Block}
    {first second : Nat → PageUsage}
    (usages : UsageSound pool live first)
    (same : ∀ block ∈ live, first block.start = second block.start) :
    UsageSound pool live second where
  counted usage := by
    rw [usages.counted, usedPages_congr same]
  marked block member usage := by
    rw [usages.marked block member, same block member]
  unmarked := usages.unmarked

/-- The usable pages of a region are fewer than a counter can count. -/
theorem regionLayout_small
    (sizes : StructSizes)
    (region : PhysRegion) :
    (regionLayout sizes region).nrPages < 2 ^ 64 := by
  have size : pageSize = 4096 := rfl
  have mapped := region.mapped
  simp only [RegionLayout.nrPages, regionLayout, halKvaddrToPfn, roundupAlign,
    truncateAlign]
  rw [size] at mapped ⊢
  rw [pageShift, Nat.shiftRight_eq_div_pow, Nat.shiftRight_eq_div_pow]
  generalize halPhysToKvaddr region.physStart = kvaddr at *
  generalize halKernVmaBase = vmaBase at *
  omega

/-- What is recorded elsewhere leaves the counters of a region alone. -/
theorem EntUsageSound.elsewhere
    {ent : PfdbEnt}
    {allocated allocatedAfter : List Allocation}
    {usageOf usageOfAfter : Nat → PageUsage}
    (usages : EntUsageSound ent allocated usageOf)
    (sound : EntSound ent allocated)
    (sameLive : ent.liveBlocks allocatedAfter = ent.liveBlocks allocated)
    (sameUsage : ∀ pfn, ent.Holds pfn → usageOfAfter pfn = usageOf pfn) :
    EntUsageSound ent allocatedAfter usageOfAfter where
  usages := by
    rw [sameLive]
    refine usages.usages.congr fun block member => (sameUsage _ ?_).symm
    have inside := sound.pool.tiles.inside block (by simp [member])
    have size := sound.nrPages
    have positive := block.size_pos
    simp only [PfdbEnt.Holds]
    omega
  small := usages.small

/-- The invariant of the counters of the database. -/
def DbUsageSound (state : PfdbUsageState) : Prop :=
  ∀ ent ∈ state.pfdb.db,
    EntUsageSound ent state.pfdb.allocated state.usageOf

/-- A call with usages is the call on the database, and records its usage. -/
theorem pfdbUsageNext_pfdb
    {state after : PfdbUsageState}
    {call : PfdbCall}
    (stepped : pfdbUsageNext state call = some after) :
    pfdbNext state.pfdb call = some after.pfdb := by
  cases call with
  | dequeue order usage =>
      obtain ⟨⟨result, db⟩, executed, rfl⟩ := Option.map_eq_some_iff.mp stepped
      simp [pfdbNext, executed]
  | add sizes region raw =>
      obtain ⟨pfdb, executed, rfl⟩ := Option.map_eq_some_iff.mp stepped
      exact executed
  | incUseCount pfn =>
      obtain ⟨pfdb, executed, rfl⟩ := Option.map_eq_some_iff.mp stepped
      exact executed
  | decUseCount pfn =>
      obtain ⟨pfdb, executed, rfl⟩ := Option.map_eq_some_iff.mp stepped
      exact executed

/-- Only an allocation records a usage, and records it for its page. -/
theorem pfdbUsageNext_usageOf
    {state after : PfdbUsageState}
    {call : PfdbCall}
    (stepped : pfdbUsageNext state call = some after) :
    (after.usageOf = state.usageOf ∧
        after.pfdb.allocated.length ≤ state.pfdb.allocated.length) ∨
      ∃ order usage pfn,
        call = .dequeue order usage ∧
          after.pfdb.allocated = ⟨pfn, order⟩ :: state.pfdb.allocated ∧
          after.usageOf = Function.update state.usageOf pfn usage := by
  cases call with
  | dequeue order usage =>
      obtain ⟨⟨result, db⟩, executed, rfl⟩ := Option.map_eq_some_iff.mp stepped
      cases result with
      | error code =>
          exact .inl ⟨rfl, Nat.le_refl _⟩
      | ok pfn =>
          exact .inr ⟨order, usage, pfn, rfl, rfl, rfl⟩
  | add sizes region raw =>
      obtain ⟨pfdb, executed, rfl⟩ := Option.map_eq_some_iff.mp stepped
      obtain ⟨db, added, rfl⟩ := Option.map_eq_some_iff.mp executed
      exact .inl ⟨rfl, Nat.le_refl _⟩
  | incUseCount pfn =>
      obtain ⟨pfdb, executed, rfl⟩ := Option.map_eq_some_iff.mp stepped
      obtain ⟨found, _, rfl⟩ := Option.map_eq_some_iff.mp executed
      exact .inl ⟨rfl, Nat.le_refl _⟩
  | decUseCount pfn =>
      obtain ⟨pfdb, executed, rfl⟩ := Option.map_eq_some_iff.mp stepped
      obtain ⟨⟨last, db⟩, _, rfl⟩ := Option.map_eq_some_iff.mp executed
      refine .inl ⟨rfl, ?_⟩
      cases last with
      | false =>
          exact Nat.le_refl _
      | true =>
          exact List.length_eraseP_le

/-- Memory that fits makes a new region start with its counters at zero. -/
theorem entUsageSound_of_added
    {sizes : StructSizes}
    {region : PhysRegion}
    {raw : RawMemory}
    {ent : PfdbEnt}
    {allocated : List Allocation}
    (usageOf : Nat → PageUsage)
    (usable :
      addUsablePages (regionLayout sizes region).inUse
          (List.range (regionLayout sizes region).nrPages)
          (initPool raw (regionLayout sizes region).nrPages
            (regionLayout sizes region).minPfn) =
        some ent.pagePool)
    (fits : CountersFit sizes region raw)
    (nobody : ent.liveBlocks allocated = []) :
    EntUsageSound ent allocated usageOf := by
  have ready := addUsablePages_initPool usable
  refine ⟨?_, ready.nrPages ▸ regionLayout_small sizes region⟩
  rw [nobody]
  refine ⟨fun usage => ?_, by simp, fun idx unreserved _ usage => ?_⟩
  · exact (addUsablePages_usage_zero_iff usable usage).mpr (fits usage)
  · rw [(addUsablePages_usage usable).cleared idx unreserved]

/-- A call whose region of memory fits keeps every counter. -/
theorem DbUsageSound.step
    {state after : PfdbUsageState}
    {call : PfdbCall}
    (usages : DbUsageSound state)
    (sound : PfdbSound state.pfdb)
    (fits : MemoryFits state call)
    (stepped : pfdbUsageNext state call = some after) :
    DbUsageSound after := by
  have pfdbStepped := pfdbUsageNext_pfdb stepped
  have usageOf := pfdbUsageNext_usageOf stepped
  obtain ⟨afterPfdb, afterUsageOf⟩ := after
  simp only at pfdbStepped usageOf
  cases pfdbNext_cases sound pfdbStepped with
  | @added sizes region raw pool db usable inserted =>
      have sameUsage : afterUsageOf = state.usageOf := by
        rcases usageOf with ⟨same, _⟩ | ⟨_, _, _, isDequeue, _⟩
        · exact same
        · cases isDequeue
      subst sameUsage
      have nobody := sound.insert_liveBlocks inserted
      obtain ⟨earlier, later, shape, rfl, _⟩ := pfdbInsert_shape inserted
      have older : ∀ ent ∈ earlier ++ later,
          EntUsageSound ent state.pfdb.allocated state.usageOf :=
        fun ent member => usages ent (shape ▸ member)
      intro ent member
      rcases List.mem_append.mp member with inEarlier | others
      · exact older ent (by simp [inEarlier])
      · rcases List.mem_cons.mp others with rfl | inLater
        · exact entUsageSound_of_added state.usageOf usable fits nobody
        · exact older ent (by simp [inLater])
  | exhausted order usage =>
      rcases usageOf with ⟨same, _⟩ | ⟨_, _, _, _, grown, _⟩
      · subst same
        exact usages
      · simp at grown
  | @taken order idx usage ent pool db member replaced holds took sameRegion =>
      have sameUsage :
          afterUsageOf =
            Function.update state.usageOf (ent.minPfn + idx) usage := by
        rcases usageOf with ⟨_, shrunk⟩ | ⟨_, _, pfn, isDequeue, grown, noted⟩
        · simp at shrunk
        · cases isDequeue
          rw [noted]
          simp only [List.cons.injEq, Allocation.mk.injEq] at grown
          rw [grown.1.1]
      subst sameUsage
      have before := sound.ents ent member
      intro other otherMember
      rcases replaced.mem_after sound.regions holds otherMember with
        rfl | ⟨olderMember, outside⟩
      · have counted :=
          (usages ent member).usages.handOut before.pool before.pfn sameRegion
            took
        refine ⟨?_, sameRegion.nrPages ▸ (usages ent member).small⟩
        have sameLive :
            ent.liveBlocks (⟨ent.minPfn + idx, order⟩ :: state.pfdb.allocated) =
              ⟨idx, order⟩ :: ent.liveBlocks state.pfdb.allocated := by
          simp [PfdbEnt.liveBlocks, holds]
        have sameUsageAt :
            ent.usageAt
                (Function.update state.usageOf (ent.minPfn + idx) usage) =
              Function.update (ent.usageAt state.usageOf) idx usage := by
          funext page
          by_cases same : page = idx <;> simp [PfdbEnt.usageAt, same]
        show UsageSound pool (ent.liveBlocks _) (ent.usageAt _)
        rw [sameLive, sameUsageAt]
        exact counted
      · refine (usages other olderMember).elsewhere
          (sound.ents other olderMember)
          (liveBlocks_cons_of_not_holds outside _) fun pfn held => ?_
        have different : pfn ≠ ent.minPfn + idx :=
          fun same => outside (same ▸ held)
        simp [different]
  | @counted _ pfn usecnt ent db called member replaced holds =>
      have sameUsage : afterUsageOf = state.usageOf := by
        rcases usageOf with ⟨same, _⟩ | ⟨_, _, _, isDequeue, _⟩
        · exact same
        · subst isDequeue
          simp at called
      subst sameUsage
      intro other otherMember
      rcases replaced.mem_after sound.regions holds otherMember with
        rfl | ⟨olderMember, outside⟩
      · have before := usages ent member
        exact ⟨before.usages.setUsecnt _ usecnt, before.small⟩
      · exact usages other olderMember
  | @returned pfn block ent pool db member replaced holds wasLive starts
      enqueued sameRegion live =>
      have sameUsage : afterUsageOf = state.usageOf := by
        rcases usageOf with ⟨same, _⟩ | ⟨_, _, _, isDequeue, _⟩
        · exact same
        · cases isDequeue
      subst sameUsage
      have before := usages ent member
      have pool := (sound.ents ent member).pool
      intro other otherMember
      rcases replaced.mem_after sound.regions holds otherMember with
        rfl | ⟨olderMember, outside⟩
      · refine ⟨?_, sameRegion.nrPages ▸ before.small⟩
        have sameReserved :=
          (SameRegion.setUsecnt ent.pagePool block.start 0).reserved
        have counted :=
          (before.usages.setUsecnt block.start 0).giveBack
            (pool.setUsecnt 0 ⟨block, wasLive, rfl⟩) wasLive
            (fun idx =>
              (sameRegion.reserved idx).trans (sameReserved idx).symm)
            enqueued
        rw [← live] at counted
        exact counted
      · exact (usages other olderMember).elsewhere
          (sound.ents other olderMember)
          (liveBlocks_eraseP_of_not_holds outside _) fun _ _ => rfl

/-- The pages used for something are those of the live blocks noted for it. -/
theorem pagesUsedFor_eq
    (ent : PfdbEnt)
    (state : PfdbUsageState)
    (usage : PageUsage) :
    ent.pagesUsedFor state usage =
      usedPages (ent.usageAt state.usageOf) usage
        (ent.liveBlocks state.pfdb.allocated) := by
  rw [PfdbEnt.pagesUsedFor]
  induction state.pfdb.allocated with
  | nil =>
      rfl
  | cons held rest inductionHypothesis =>
      by_cases holds : ent.Holds held.pfn
      · have shape :
            ent.liveBlocks (held :: rest) =
              ⟨held.pfn - ent.minPfn, held.order⟩ :: ent.liveBlocks rest := by
          simp [PfdbEnt.liveBlocks, holds]
        have index : ent.minPfn + (held.pfn - ent.minPfn) = held.pfn := by
          simp only [PfdbEnt.Holds] at holds
          omega
        rw [shape, usedPages_cons, ← inductionHypothesis, PfdbEnt.usageAt,
          index]
        by_cases same : state.usageOf held.pfn = usage <;>
          simp [holds, same]
      · rw [liveBlocks_cons_of_not_holds holds, ← inductionHypothesis]
        simp [holds]

/-- The live blocks of a region have no more pages than the region. -/
theorem usedPages_le
    {pool : PageBuddy}
    {live : List Block}
    (sound : PoolSound pool [] live)
    (usageAt : Nat → PageUsage)
    (usage : PageUsage) :
    usedPages usageAt usage live ≤ pool.nrPages := by
  have sizes := sound.tiles.sum_sizes
  have available := Finset.card_filter_le (Finset.range pool.nrPages)
    pool.Unreserved
  rw [List.nil_append, List.map_append, List.sum_append] at sizes
  rw [Finset.card_range] at available
  have part :
      usedPages usageAt usage live ≤ (live.map Block.size).sum :=
    (List.filter_sublist.map _).sum_le_sum fun _ _ => Nat.zero_le _
  omega

/-- The invariants of every state that calls with fitting memory reach. -/
theorem dbUsageSound_of_run
    {calls : List PfdbCall}
    {state : PfdbUsageState}
    (run :
      Run (Guarded MemoryFits (StepOf pfdbUsageNext)) .empty calls state) :
    PfdbSound state.pfdb ∧ DbUsageSound state := by
  induction run with
  | nil =>
      exact ⟨pfdbSound_empty, by simp [DbUsageSound, PfdbUsageState.empty,
        PfdbState.empty]⟩
  | snoc _ last inductionHypothesis =>
      obtain ⟨sound, usages⟩ := inductionHypothesis
      exact ⟨sound.step (pfdbUsageNext_pfdb last.2),
        usages.step sound last.1 last.2⟩

/--
When the memory of every registered region fits, each counter of each region
is the number of pages allocated for its usage in every state reached; and a
region starts with all counters at zero exactly when its memory fits.
-/
theorem usage_counters
    {calls : List PfdbCall}
    {state : PfdbUsageState}
    (run :
      Run (Guarded MemoryFits (StepOf pfdbUsageNext)) .empty calls state) :
    (∀ ent ∈ state.pfdb.db, ∀ usage,
      (ent.pagePool.usagePages usage).toNat = ent.pagesUsedFor state usage) ∧
    (∀ sizes region raw after,
      pfdbUsageNext state (.add sizes region raw) = some after →
      ∃ ent ∈ after.pfdb.db,
        ent.minPfn = (regionLayout sizes region).minPfn ∧
        ent.maxPfn = (regionLayout sizes region).maxPfn ∧
        ((∀ usage, ent.pagePool.usagePages usage = 0) ↔
          CountersFit sizes region raw)) := by
  obtain ⟨sound, usages⟩ := dbUsageSound_of_run run
  refine ⟨fun ent member usage => ?_, fun sizes region raw after added => ?_⟩
  · have counted := usages ent member
    have bound :=
      usedPages_le (sound.ents ent member).pool (ent.usageAt state.usageOf)
        usage
    rw [counted.usages.counted, pagesUsedFor_eq, UInt64.toNat_ofNat']
    exact Nat.mod_eq_of_lt (by have small := counted.small; omega)
  · have pfdbAdded := pfdbUsageNext_pfdb added
    obtain ⟨pfdb, usageOf⟩ := after
    simp only at pfdbAdded
    cases pfdbNext_cases sound pfdbAdded with
    | added usable inserted =>
        obtain ⟨earlier, later, _, rfl, _⟩ := pfdbInsert_shape inserted
        refine ⟨_, List.mem_append_right _ (List.mem_cons_self ..), rfl, rfl,
          ?_⟩
        exact forall_congr' fun usage =>
          addUsablePages_usage_zero_iff usable usage
    | counted called =>
        rcases called with isInc | isDec
        · cases isInc
        · cases isDec

/-- Memory that was cleared before the region was registered. -/
def zeroedMemory : RawMemory where
  frames _ :=
    { used := false
      reserved := false
      clustered := false
      usecase := fun _ => false
      pfn := 0
      usecnt := 0
      mapcnt := 0
      order := 0
      headp := none }
  usagePages _ := 0

/-- Allocations for two usages from cleared memory, one of them given back. -/
def useAndReturn : List PfdbCall :=
  [.add ⟨200, 400⟩ eightPages zeroedMemory,
    .dequeue 1 .kern, .dequeue 0 .slab, .decUseCount 0x80006]

theorem usage_counters_useAndReturn :
    ∃ state,
      execute pfdbUsageNext .empty useAndReturn = some state ∧
        (∃ ent ∈ state.pfdb.db, ent.pagePool.usagePages .kern = 2) ∧
        ∀ ent ∈ state.pfdb.db, ∀ usage,
          (ent.pagePool.usagePages usage).toNat =
            ent.pagesUsedFor state usage := by
  obtain ⟨state, executed⟩ :
      ∃ state, execute pfdbUsageNext .empty useAndReturn = some state :=
    Option.isSome_iff_exists.mp (by decide +kernel)
  have facts :
      (execute pfdbUsageNext .empty useAndReturn).map
          (fun state =>
            state.pfdb.db.map fun ent => ent.pagePool.usagePages .kern) =
        some [2] := by
    decide +kernel
  rw [executed, Option.map_some, Option.some.injEq] at facts
  have run :
      Run (Guarded MemoryFits (StepOf pfdbUsageNext)) .empty useAndReturn
        state := by
    refine (Run.of_execute executed).guarded_of_forall ?_
    simp [useAndReturn, MemoryFits, CountersFit, stalePages, zeroedMemory]
  refine ⟨state, executed, ?_, (usage_counters run).1⟩
  have two : (2 : UInt64) ∈
      state.pfdb.db.map fun ent => ent.pagePool.usagePages .kern := by
    simp [facts]
  simpa using two

/--
On memory that was not cleared, a region without any allocation shows pages in
use right after its registration.
-/
theorem dirty_memory_miscounts :
    ∃ state,
      execute pfdbUsageNext .empty
          [.add ⟨200, 400⟩ eightPages dirtyMemory] = some state ∧
        state.pfdb.allocated = [] ∧
        ∃ ent ∈ state.pfdb.db,
          (ent.pagePool.usagePages .kern).toNat = 2 ^ 64 - 2 ∧
            ent.pagesUsedFor state .kern = 0 := by
  obtain ⟨state, executed⟩ :
      ∃ state,
        execute pfdbUsageNext .empty
          [.add ⟨200, 400⟩ eightPages dirtyMemory] = some state :=
    Option.isSome_iff_exists.mp (by decide +kernel)
  have facts :
      (execute pfdbUsageNext .empty
          [.add ⟨200, 400⟩ eightPages dirtyMemory]).map
          (fun state =>
            (state.pfdb.allocated,
              state.pfdb.db.map fun ent =>
                (ent.pagePool.usagePages .kern).toNat)) =
        some ([], [2 ^ 64 - 2]) := by
    decide +kernel
  rw [executed, Option.map_some, Option.some.injEq, Prod.mk.injEq] at facts
  obtain ⟨nobody, shown⟩ := facts
  refine ⟨state, executed, nobody, ?_⟩
  have listed : 2 ^ 64 - 2 ∈
      state.pfdb.db.map fun ent => (ent.pagePool.usagePages .kern).toNat := by
    simp [shown]
  obtain ⟨ent, member, counter⟩ := List.mem_map.mp listed
  exact ⟨ent, member, counter, by simp [PfdbEnt.pagesUsedFor, nobody]⟩

end RiscvWorkshop.Pfdb
