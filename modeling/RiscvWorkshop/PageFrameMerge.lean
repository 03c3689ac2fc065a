import Mathlib
import RiscvWorkshop.BuddyMerged
import RiscvWorkshop.PageFrameShape

namespace RiscvWorkshop.Pfdb

open BuddyTiling

/-!
# Free buddies never stay apart

The page lists of a region hold no two buddies that could be merged.  Merging
stops only where the buddy is not free as a whole, and splitting keeps the
lower half of every cut out of the lists.  So the free blocks of a region
without users depend on its usable pages alone.
-/

/-- No two buddies below the largest order are free at the same time. -/
def PageBuddy.Merged (pool : PageBuddy) : Prop :=
  BuddyTiling.Merged (pagePoolMaxOrder - 1) pool.freeBlocks

/-- The buddy of a block is another block. -/
theorem buddyOf_ne
    (idx order : Nat) :
    buddyOf idx order ≠ idx := by
  intro same
  have cancelled := congrArg (idx ^^^ ·) same
  simp [buddyOf] at cancelled

namespace PoolSound

variable {pool : PageBuddy}
variable {live : List Block}
variable {order idx : Nat}

/-- A listed buddy of the block in hand passes every test of the merge loop. -/
theorem mergeable_of_listed
    (sound : PoolSound pool [⟨idx, order⟩] live)
    (listed : (⟨buddyOf idx order, order⟩ : Block) ∈ pool.freeBlocks) :
    buddyOf idx order < pool.nrPages ∧
      (pool.array (buddyOf idx order)).order = order ∧
      (pool.array (buddyOf idx order)).notFreed = false := by
  have member :
      (⟨buddyOf idx order, order⟩ : Block) ∈
        [⟨idx, order⟩] ++ (pool.freeBlocks ++ live) := by
    simp [listed]
  have inside := sound.tiles.inside _ member
  have positive := Nat.two_pow_pos order
  have unreserved : pool.Unreserved (buddyOf idx order) :=
    sound.tiles.available_of_member member (Block.contains_start _)
  obtain ⟨sameOrder, notUsed⟩ := sound.freeHead _ listed
  simp only [Block.size_mk] at inside
  refine ⟨by omega, sameOrder, ?_⟩
  simp only [PageBuddy.Unreserved] at unreserved
  simp [PageFrame.notFreed, notUsed, unreserved]

end PoolSound

/-- The merge loop ends with a block whose buddy is not free. -/
theorem enqueueLoop_merged
    {live : List Block}
    {endIdx : Nat}
    {after : PageBuddy} :
    ∀ {remaining order idx : Nat} {pool : PageBuddy},
      order + remaining = pagePoolMaxOrder →
      0 < remaining →
      PoolSound pool [⟨idx, order⟩] live →
      (pool.array idx).used = false →
      pool.Merged →
      enqueueLoop remaining order idx pool = some (endIdx, after) →
      after.Merged ∧
        ((after.array endIdx).order < pagePoolMaxOrder - 1 →
          (⟨buddyOf endIdx (after.array endIdx).order,
            (after.array endIdx).order⟩ : Block) ∉ after.freeBlocks) := by
  intro remaining
  induction remaining with
  | zero =>
      intro order idx pool _ positive
      omega
  | succ remaining inductionHypothesis =>
      intro order idx pool total _ sound notUsed merged executed
      have marked := sound.setOrder (Block.contains_start _) order
      have markedOrder :
          ((pool.setOrder idx order).array idx).order = order := by
        simp [PageBuddy.setOrder]
      have markedUsed :
          ((pool.setOrder idx order).array idx).used = false := by
        simpa [PageBuddy.setOrder] using notUsed
      have mergeable := marked.mergeable_of_listed
      rw [enqueueLoop] at executed
      simp only at executed
      split_ifs at executed with inRegion top outside otherOrder taken
      · cases executed
        exact ⟨merged, fun below => by omega⟩
      · cases executed
        refine ⟨merged, fun _ listed => ?_⟩
        rw [markedOrder] at listed
        exact absurd (mergeable listed).1 (not_lt.mpr outside)
      · cases executed
        refine ⟨merged, fun _ listed => ?_⟩
        rw [markedOrder] at listed otherOrder
        exact otherOrder (mergeable listed).2.1.symm
      · cases executed
        refine ⟨merged, fun _ listed => ?_⟩
        rw [markedOrder] at listed
        exact Bool.false_ne_true ((mergeable listed).2.2.symm.trans taken)
      · have sameOrder :
            ((pool.setOrder idx order).array
              (buddyOf idx order)).order = order := by
          rw [markedOrder, not_not] at otherOrder
          exact otherOrder.symm
        have listed :=
          marked.buddy_listed (not_le.mp outside) sameOrder
            (Bool.eq_false_iff.mpr taken)
        obtain ⟨joined, joinedUsed⟩ :=
          marked.mergeBuddy (by omega) listed markedUsed
        change enqueueLoop remaining (order + 1) (maskOrder (order + 1) idx)
          ((pool.setOrder idx order).queueDel
            ((pool.setOrder idx order).array (buddyOf idx order)).order
            (buddyOf idx order)) = _ at executed
        rw [sameOrder] at executed
        refine inductionHypothesis (by omega) (by omega) joined joinedUsed ?_
          executed
        refine merged.mono fun block member => ?_
        obtain ⟨bound, inList⟩ := mem_blocksOf.mp member
        exact mem_blocksOf.mpr ⟨bound, List.mem_of_mem_erase inList⟩

/-- `enqueue_page_to_buddy_pool` leaves no mergeable buddies behind. -/
theorem enqueuePageToBuddyPool_merged
    {pool after : PageBuddy}
    {live : List Block}
    {order idx : Nat}
    (sound : PoolSound pool [⟨idx, order⟩] live)
    (sameOrder : (pool.array idx).order = order)
    (merged : pool.Merged)
    (executed : enqueuePageToBuddyPool pool idx = some after) :
    after.Merged := by
  obtain ⟨endIdx, joined, looped, rfl⟩ :=
    enqueuePageToBuddyPool_shape executed
  have bound : order < pagePoolMaxOrder :=
    sound.orders ⟨idx, order⟩ (by simp)
  have unmarked :=
    (sound.of_sameBlocks (.unmarkPageUsage pool idx)).clearUsed
      (Block.contains_start _)
  rw [sameOrder] at looped
  obtain ⟨joinedIdx, joinedOrder, joinedPool, joinedLooped, joinedSound,
      joinedSame, _⟩ :=
    enqueueLoop_sound
      (show order + (pagePoolMaxOrder - order) = pagePoolMaxOrder by omega)
      (by omega) unmarked (by simp)
  obtain ⟨rfl, rfl⟩ : endIdx = joinedIdx ∧ joined = joinedPool := by
    rw [looped] at joinedLooped
    simpa using joinedLooped
  obtain ⟨joinedMerged, alone⟩ :=
    enqueueLoop_merged
      (show order + (pagePoolMaxOrder - order) = pagePoolMaxOrder by omega)
      (by omega) unmarked (by simp) merged looped
  have cleared := SameBlocks.clearClusteredPages joined endIdx
  rw [cleared.order]
  have endBound : (joined.array endIdx).order < pagePoolMaxOrder := by
    rw [joinedSame]
    exact joinedSound.orders ⟨endIdx, joinedOrder⟩ (by simp)
  have moved :=
    blocksOf_append_perm endBound (clearClusteredPages joined endIdx).pageList
      endIdx
  refine BuddyTiling.Merged.perm (.cons joinedMerged fun below both => ?_)
    moved.symm
  rcases List.mem_cons.mp both with same | listed
  · exact buddyOf_ne _ _ (congrArg Block.start same)
  · exact alone below listed

/-- Splitting links upper halves only, whose buddies stay in hand. -/
theorem adjustPageOrderLoop_merged
    {requestOrder idx : Nat}
    {live : List Block}
    {after : PageBuddy} :
    ∀ {curOrder : Nat} {pool : PageBuddy},
      PoolSound pool [⟨idx, curOrder⟩] live →
      (pool.array idx).used = false →
      pool.Merged →
      adjustPageOrderLoop requestOrder idx curOrder pool = some after →
      after.Merged := by
  intro curOrder
  induction curOrder with
  | zero =>
      intro pool _ _ merged executed
      cases executed
      exact merged
  | succ curOrder inductionHypothesis =>
      intro pool sound notUsed merged executed
      rw [adjustPageOrderLoop] at executed
      simp only at executed
      split_ifs at executed with larger inRegion
      · have whole : 2 ^ (curOrder + 1) ∣ idx :=
          sound.tiles.aligned ⟨idx, curOrder + 1⟩ (by simp)
        have buddyShape : idx ^^^ (1 <<< curOrder) = idx + 2 ^ curOrder :=
          buddyOf_of_dvd whole
        have positive := Nat.two_pow_pos curOrder
        rw [buddyShape] at executed
        have upperNotUsed :
            (pool.array (idx + 2 ^ curOrder)).used = false :=
          sound.used_eq_false_of_hand
            (by
              simp only [Block.Contains, Block.size_mk, pow_succ]
              omega)
            (by simp only; omega)
        have halves := sound.splitHand.permHand (.swap ..)
        have upperSet := halves.setOrder (Block.contains_start _) curOrder
        have linked := upperSet.put (by simp [PageBuddy.setOrder])
          (by simpa [PageBuddy.setOrder] using upperNotUsed)
        have lowerSet := linked.setOrder (Block.contains_start _) curOrder
        have bound : curOrder < pagePoolMaxOrder :=
          halves.orders ⟨idx, curOrder⟩ (by simp)
        have moved :=
          blocksOf_append_perm bound pool.pageList (idx + 2 ^ curOrder)
        refine inductionHypothesis lowerSet ?_ ?_ executed
        · have different : idx ≠ idx + 2 ^ curOrder := by omega
          simpa [PageBuddy.setOrder, PageBuddy.queueAdd, different]
            using notUsed
        · refine BuddyTiling.Merged.perm (.cons merged fun _ both => ?_)
            moved.symm
          -- the buddy of the upper half starts where the block in hand does
          have lower :
              (Block.mk (idx + 2 ^ curOrder) curOrder).buddy =
                ⟨idx, curOrder⟩ := by
            have involutive :=
              (Block.mk idx curOrder).buddy_buddy
            simp only [Block.buddy, buddyOf_of_dvd whole] at involutive ⊢
            exact involutive
          rw [lower] at both
          rcases List.mem_cons.mp both with same | listed
          · have sameStart := congrArg Block.start same
            simp only at sameStart
            omega
          · exact sound.start_ne_of_hand
              (List.mem_append_left _ listed)
              (Block.contains_start ⟨idx, curOrder + 1⟩) rfl
      · cases executed
        exact merged

/-- `dequeue_page_from_memory_area` leaves no mergeable buddies behind. -/
theorem Taken.merged
    {pool after : PageBuddy}
    {order : Nat}
    {usage : PageUsage}
    {result : Except Errno Nat}
    {live : List Block}
    (taken : Taken pool order usage result after)
    (sound : PoolSound pool [] live)
    (merged : pool.Merged) :
    after.Merged := by
  cases taken with
  | failed code =>
      exact merged
  | @taken curOrder idx rest adjusted above bound listed adjustedOrder =>
      have inFree : (⟨idx, curOrder⟩ : Block) ∈ pool.freeBlocks :=
        mem_blocksOf.mpr ⟨bound, by simp [listed]⟩
      obtain ⟨sameOrder, notUsed⟩ := sound.freeHead _ inFree
      have popped := sound.take bound listed
      obtain ⟨looped, _⟩ := adjustPageOrder_shape adjustedOrder
      have poppedMerged : (pool.queueGetTop curOrder rest).Merged := by
        refine merged.mono fun block member => ?_
        have perm := blocksOf_erase_perm bound pool.pageList
          (show idx ∈ pool.pageList curOrder by simp [listed])
        rw [listed, List.erase_cons_head] at perm
        exact perm.mem_iff.mpr (List.mem_cons_of_mem _ member)
      have sameLists : ∀ (pool : PageBuddy) (idx : Nat),
          (setupClusteredPages pool idx).pageList = pool.pageList := by
        intro pool idx
        unfold setupClusteredPages
        split <;> rfl
      have adjustedMerged : adjusted.Merged :=
        adjustPageOrderLoop_merged popped notUsed poppedMerged
          (by
            rw [← looped]
            exact congrArg
              (adjustPageOrderLoop order idx · (pool.queueGetTop curOrder rest))
              sameOrder.symm)
      show BuddyTiling.Merged _
        (blocksOf pagePoolMaxOrder (setupClusteredPages adjusted idx).pageList)
      rw [sameLists]
      exact adjustedMerged

/-! ## Runs -/

/-- No region of the database has two mergeable free buddies. -/
def DbMerged (db : List PfdbEnt) : Prop :=
  ∀ ent ∈ db, ent.pagePool.Merged

/-- Registration ends with merged buddies. -/
theorem addUsablePages_merged
    {inUse : Nat → Bool}
    {raw : RawMemory}
    {nrPages minPfn : Nat}
    {after : PageBuddy}
    (added :
      addUsablePages inUse (List.range nrPages)
        (initPool raw nrPages minPfn) = some after) :
    after.Merged := by
  refine (addUsablePages_invariant (fun _ pool => pool.Merged)
    (fun merged _ => merged) ?_ (regionReady_initPool raw nrPages minPfn) ?_
    List.nodup_range
    (fun _ member => ⟨List.mem_range.mp member, rfl, rfl⟩) added).2
  · intro pool linked idx _ ready merged bound isReserved orderZero _ executed
    have unreserved :=
      ready.sound.unreserve (ready.nrPages ▸ bound) isReserved
    have linkedMerged : linked.Merged :=
      enqueuePageToBuddyPool_merged unreserved (by simp [orderZero]) merged
        executed
    exact linkedMerged
  · have noBlocks : (initPool raw nrPages minPfn).freeBlocks = [] := by
      simp [PageBuddy.freeBlocks, blocksOf, initPool]
    intro block member
    rw [noBlocks] at member
    cases member

/-- Every call keeps the buddies merged. -/
theorem DbMerged.step
    {state after : PfdbState}
    {call : PfdbCall}
    (merged : DbMerged state.db)
    (sound : PfdbSound state)
    (stepped : pfdbNext state call = some after) :
    DbMerged after.db := by
  -- only the region whose pool changed needs an argument
  have replacedMerged :
      ∀ {ent pool pfn db},
        PoolReplaced ent pool state.db db →
        ent.Holds pfn →
        pool.Merged →
        DbMerged db := by
    intro ent pool pfn db replaced holds poolMerged other member
    rcases replaced.mem_after sound.regions holds member with rfl | ⟨older, _⟩
    · exact poolMerged
    · exact merged other older
  cases pfdbNext_cases sound stepped with
  | added usable inserted =>
      obtain ⟨earlier, later, shape, rfl, _⟩ := pfdbInsert_shape inserted
      intro ent member
      have older : ∀ other ∈ earlier ++ later, other.pagePool.Merged :=
        fun other otherMember => merged other (shape ▸ otherMember)
      rcases List.mem_append.mp member with inEarlier | others
      · exact older ent (by simp [inEarlier])
      · rcases List.mem_cons.mp others with rfl | inLater
        · exact addUsablePages_merged usable
        · exact older ent (by simp [inLater])
  | exhausted order usage =>
      exact merged
  | @taken _ _ _ ent _ _ member replaced holds took _ =>
      exact replacedMerged replaced holds
        (took.merged (sound.ents ent member).pool (merged ent member))
  | @counted _ _ _ ent _ _ member replaced holds =>
      exact replacedMerged replaced holds (merged ent member)
  | @returned _ block ent _ _ member replaced holds wasLive _ enqueued _ _ =>
      have pool := (sound.ents ent member).pool
      refine replacedMerged replaced holds
        (enqueuePageToBuddyPool_merged (pool.release wasLive) ?_
          (merged ent member) enqueued)
      simpa using (pool.liveHead block wasLive).1

/-- The invariants of every state that a run of calls reaches. -/
theorem dbMerged_of_run
    {calls : List PfdbCall}
    {start final : PfdbState}
    (sound : PfdbSound start)
    (merged : DbMerged start.db)
    (run : Run (StepOf pfdbNext) start calls final) :
    PfdbSound final ∧ DbMerged final.db := by
  induction run with
  | nil =>
      exact ⟨sound, merged⟩
  | snoc _ last inductionHypothesis =>
      exact ⟨inductionHypothesis.1.step last,
        inductionHypothesis.2.step inductionHypothesis.1 last⟩

/-- A region of one state as it is found in a later state. -/
structure RegionKept (before after : PfdbEnt) : Prop where
  kvaddr : after.kvaddr = before.kvaddr
  minPfn : after.minPfn = before.minPfn
  maxPfn : after.maxPfn = before.maxPfn
  pool : SameRegion before.pagePool after.pagePool

/-- No call removes a region or changes which of its pages are usable. -/
theorem regionKept_step
    {state after : PfdbState}
    {call : PfdbCall}
    (sound : PfdbSound state)
    (stepped : pfdbNext state call = some after) :
    ∀ ent ∈ state.db, ∃ later ∈ after.db, RegionKept ent later := by
  intro ent member
  have replacedKept :
      ∀ {changed pool db},
        PoolReplaced changed pool state.db db →
        SameRegion changed.pagePool pool →
        ∃ later ∈ db, RegionKept ent later := by
    intro changed pool db replaced sameRegion
    obtain ⟨earlier, others, before, rfl⟩ := replaced.shape
    rw [before] at member
    rcases List.mem_append.mp member with inEarlier | inLater
    · exact ⟨ent, by simp [inEarlier], rfl, rfl, rfl, .refl _⟩
    · rcases List.mem_cons.mp inLater with rfl | inLater
      · exact ⟨{ ent with pagePool := pool }, by simp, rfl, rfl, rfl,
          sameRegion⟩
      · exact ⟨ent, by simp [inLater], rfl, rfl, rfl, .refl _⟩
  cases pfdbNext_cases sound stepped with
  | added usable inserted =>
      obtain ⟨earlier, later, shape, rfl, _⟩ := pfdbInsert_shape inserted
      rw [shape] at member
      refine ⟨ent, ?_, rfl, rfl, rfl, .refl _⟩
      rcases List.mem_append.mp member with inEarlier | inLater <;>
        simp [*]
  | exhausted order usage =>
      exact ⟨ent, member, rfl, rfl, rfl, .refl _⟩
  | taken _ replaced _ _ sameRegion =>
      exact replacedKept replaced sameRegion
  | counted _ _ replaced _ =>
      exact replacedKept replaced (.setUsecnt _ _ _)
  | returned _ replaced _ _ _ _ sameRegion _ =>
      exact replacedKept replaced sameRegion

theorem regionKept_of_run
    {calls : List PfdbCall}
    {start final : PfdbState}
    (sound : PfdbSound start)
    (run : Run (StepOf pfdbNext) start calls final) :
    PfdbSound final ∧
      ∀ ent ∈ start.db, ∃ later ∈ final.db, RegionKept ent later := by
  induction run with
  | nil =>
      exact ⟨sound, fun ent member =>
        ⟨ent, member, rfl, rfl, rfl, .refl _⟩⟩
  | snoc _ last inductionHypothesis =>
      obtain ⟨middleSound, kept⟩ := inductionHypothesis
      refine ⟨middleSound.step last, fun ent member => ?_⟩
      obtain ⟨middle, middleMember, first⟩ := kept ent member
      obtain ⟨later, laterMember, second⟩ :=
        regionKept_step middleSound last middle middleMember
      exact ⟨later, laterMember, second.kvaddr.trans first.kvaddr,
        second.minPfn.trans first.minPfn, second.maxPfn.trans first.maxPfn,
        first.pool.trans second.pool⟩

/-- Without users, the usable pages determine the free blocks of a region. -/
theorem freeBlocks_of_sameRegion
    {before after : PageBuddy}
    (beforeSound : PoolSound before [] [])
    (afterSound : PoolSound after [] [])
    (beforeMerged : before.Merged)
    (afterMerged : after.Merged)
    (region : SameRegion before after)
    (block : Block) :
    block ∈ after.freeBlocks ↔ block ∈ before.freeBlocks := by
  have beforeTiles : Tiles before.freeBlocks before.nrPages before.Unreserved :=
    by simpa using beforeSound.tiles
  have afterTiles : Tiles after.freeBlocks before.nrPages before.Unreserved := by
    have tiles := afterSound.tiles
    rw [region.nrPages] at tiles
    refine Tiles.congr (by simpa using tiles) fun page _ => ?_
    simp only [PageBuddy.Unreserved, region.reserved]
  have orders : ∀ (pool : PageBuddy), ∀ block ∈ pool.freeBlocks,
      block.order ≤ pagePoolMaxOrder - 1 :=
    fun pool block member => Nat.le_pred_of_lt (mem_blocksOf.mp member).1
  exact ⟨afterMerged.unique afterTiles (orders after) beforeTiles beforeMerged
      (orders before),
    beforeMerged.unique beforeTiles (orders before) afterTiles afterMerged
      (orders after)⟩

/--
In every state that calls reach, no two buddies of one order below the largest
are on the page lists; and whenever every block of a region is given back, its
free blocks are those it had right after its registration.
-/
theorem free_buddies_merged
    {calls : List PfdbCall}
    {state : PfdbState}
    (run : Run (StepOf pfdbNext) .empty calls state) :
    (∀ ent ∈ state.db, ∀ order < pagePoolMaxOrder - 1,
      ∀ idx ∈ ent.pagePool.pageList order,
        buddyOf idx order ∉ ent.pagePool.pageList order) ∧
    (∀ sizes region raw fresh,
      pfdbNext state (.add sizes region raw) = some fresh →
      ∃ ent ∈ fresh.db,
        ent.minPfn = (regionLayout sizes region).minPfn ∧
        ent.maxPfn = (regionLayout sizes region).maxPfn ∧
        ∀ moreCalls final,
          Run (StepOf pfdbNext) fresh moreCalls final →
          ∃ later ∈ final.db,
            later.minPfn = ent.minPfn ∧
            later.maxPfn = ent.maxPfn ∧
            ((∀ held ∈ final.allocated, ¬ later.Holds held.pfn) →
              ∀ block,
                block ∈ later.pagePool.freeBlocks ↔
                  block ∈ ent.pagePool.freeBlocks)) := by
  obtain ⟨sound, merged⟩ :=
    dbMerged_of_run pfdbSound_empty (by simp [DbMerged, PfdbState.empty]) run
  refine ⟨fun ent member order below idx listed both => ?_,
    fun sizes region raw fresh added => ?_⟩
  · have bound : order < pagePoolMaxOrder := by omega
    exact merged ent member ⟨idx, order⟩ (mem_blocksOf.mpr ⟨bound, listed⟩)
      below (mem_blocksOf.mpr ⟨bound, both⟩)
  · cases pfdbNext_cases sound added with
    | @added _ _ _ pool _ usable inserted =>
        have ready := addUsablePages_initPool usable
        have poolMerged := addUsablePages_merged usable
        have freshSound := sound.step added
        have freshMerged := merged.step sound added
        obtain ⟨earlier, others, _, rfl, _⟩ := pfdbInsert_shape inserted
        refine ⟨_, List.mem_append_right _ (List.mem_cons_self ..), rfl, rfl,
          fun moreCalls final moreRun => ?_⟩
        obtain ⟨finalSound, kept⟩ := regionKept_of_run freshSound moreRun
        obtain ⟨later, laterMember, laterKept⟩ :=
          kept _ (List.mem_append_right _ (List.mem_cons_self ..))
        refine ⟨later, laterMember, laterKept.minPfn, laterKept.maxPfn,
          fun nobody => ?_⟩
        have noBlocks : later.liveBlocks final.allocated = [] := by
          simp only [PfdbEnt.liveBlocks, List.filterMap_eq_nil_iff]
          intro held member
          simp [nobody held member]
        have laterSound := (finalSound.ents later laterMember).pool
        rw [noBlocks] at laterSound
        exact freeBlocks_of_sameRegion ready.sound laterSound poolMerged
          ((dbMerged_of_run freshSound freshMerged moreRun).2 later laterMember)
          laterKept.pool
    | counted called =>
        rcases called with isInc | isDec
        · cases isInc
        · cases isDec

/-- Three allocations from one region, given back in another order. -/
def takeAndReturn : List PfdbCall :=
  [.dequeue 0 .kern, .dequeue 1 .slab, .dequeue 0 .anon,
    .decUseCount 0x80004, .decUseCount 0x80000, .decUseCount 0x80006]

theorem free_buddies_merged_takeAndReturn :
    ∃ fresh final,
      pfdbNext .empty (.add ⟨200, 400⟩ eightPages dirtyMemory) = some fresh ∧
        execute pfdbNext fresh takeAndReturn = some final ∧
        ∃ ent ∈ fresh.db, ∃ later ∈ final.db,
          ∀ block,
            block ∈ later.pagePool.freeBlocks ↔
              block ∈ ent.pagePool.freeBlocks := by
  have completes :
      ((pfdbNext .empty (.add ⟨200, 400⟩ eightPages dirtyMemory)).bind
        fun fresh => execute pfdbNext fresh takeAndReturn).isSome = true := by
    decide +kernel
  have returned :
      ((pfdbNext .empty (.add ⟨200, 400⟩ eightPages dirtyMemory)).bind
          fun fresh => execute pfdbNext fresh takeAndReturn).map
        (fun final => final.allocated) = some [] := by
    decide +kernel
  cases added : pfdbNext .empty (.add ⟨200, 400⟩ eightPages dirtyMemory) with
  | none =>
      rw [added] at completes
      cases completes
  | some fresh =>
      rw [added, Option.bind_some] at completes returned
      obtain ⟨final, executed⟩ := Option.isSome_iff_exists.mp completes
      rw [executed, Option.map_some, Option.some.injEq] at returned
      obtain ⟨ent, member, _, _, restores⟩ :=
        (free_buddies_merged .nil).2 _ _ _ fresh added
      obtain ⟨later, laterMember, _, _, restored⟩ :=
        restores _ final (.of_execute executed)
      exact ⟨fresh, final, rfl, executed, ent, member, later, laterMember,
        restored (by simp [returned])⟩

end RiscvWorkshop.Pfdb
