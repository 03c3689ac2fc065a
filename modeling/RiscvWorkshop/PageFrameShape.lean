import Mathlib
import RiscvWorkshop.PageFrameRuns

namespace RiscvWorkshop.Pfdb

open BuddyTiling

/-!
# What the pool functions do, read back from a call that returned

Merging and splitting write page orders and page lists only.  A call that
returned determines the rounds it went through; later modules argue about
these and never unfold the functions again.
-/

/-- Two pools that differ in page lists and in the orders of the page frames. -/
structure SameButOrders (before after : PageBuddy) : Prop where
  usagePages : after.usagePages = before.usagePages
  frame :
    ∀ idx,
      after.array idx =
        { before.array idx with order := (after.array idx).order }

namespace SameButOrders

theorem refl (pool : PageBuddy) : SameButOrders pool pool :=
  ⟨rfl, fun _ => rfl⟩

theorem trans
    {first second third : PageBuddy}
    (earlier : SameButOrders first second)
    (later : SameButOrders second third) :
    SameButOrders first third where
  usagePages := later.usagePages.trans earlier.usagePages
  frame idx := by
    rw [later.frame idx, earlier.frame idx]

theorem setOrder
    (pool : PageBuddy)
    (idx order : Nat) :
    SameButOrders pool (pool.setOrder idx order) := by
  refine ⟨rfl, fun other => ?_⟩
  by_cases same : other = idx
  · subst same
    simp [PageBuddy.setOrder]
  · simp [PageBuddy.setOrder, same]

theorem queueAdd
    (pool : PageBuddy)
    (order idx : Nat) :
    SameButOrders pool (pool.queueAdd order idx) :=
  ⟨rfl, fun _ => rfl⟩

theorem queueDel
    (pool : PageBuddy)
    (order idx : Nat) :
    SameButOrders pool (pool.queueDel order idx) :=
  ⟨rfl, fun _ => rfl⟩

theorem queueGetTop
    (pool : PageBuddy)
    (order : Nat)
    (rest : List Nat) :
    SameButOrders pool (pool.queueGetTop order rest) :=
  ⟨rfl, fun _ => rfl⟩

/-- Merging buddies writes orders only. -/
theorem enqueueLoop
    {remaining order idx endIdx : Nat}
    {pool after : PageBuddy}
    (executed :
      enqueueLoop remaining order idx pool = some (endIdx, after)) :
    SameButOrders pool after := by
  induction remaining generalizing order idx pool with
  | zero =>
      cases executed
      exact .refl _
  | succ remaining inductionHypothesis =>
      have marked := setOrder pool idx order
      simp only [Pfdb.enqueueLoop] at executed
      split_ifs at executed
      · cases executed
        exact marked
      · cases executed
        exact marked
      · cases executed
        exact marked
      · cases executed
        exact marked
      · exact marked.trans
          ((queueDel _ _ _).trans (inductionHypothesis executed))

/-- Splitting a block writes orders only. -/
theorem adjustPageOrderLoop
    {requestOrder idx curOrder : Nat}
    {pool after : PageBuddy}
    (executed :
      adjustPageOrderLoop requestOrder idx curOrder pool = some after) :
    SameButOrders pool after := by
  induction curOrder generalizing pool with
  | zero =>
      cases executed
      exact .refl _
  | succ curOrder inductionHypothesis =>
      simp only [Pfdb.adjustPageOrderLoop] at executed
      split_ifs at executed
      · have upper := setOrder pool (idx ^^^ 1 <<< curOrder) curOrder
        exact upper.trans
          ((queueAdd _ _ _).trans
            ((setOrder _ _ _).trans (inductionHypothesis executed)))
      · cases executed
        exact .refl _

end SameButOrders

/-- `adjust_page_order` that returned: its loop ran, down to the order asked for. -/
theorem adjustPageOrder_shape
    {pool after : PageBuddy}
    {idx requestOrder : Nat}
    (executed : adjustPageOrder pool idx requestOrder = some after) :
    adjustPageOrderLoop requestOrder idx (pool.array idx).order pool =
        some after ∧
      (after.array idx).order = requestOrder := by
  simp only [adjustPageOrder] at executed
  split at executed
  · cases executed
  · rename_i looped shape
    split_ifs at executed with sameOrder
    cases executed
    exact ⟨shape, sameOrder⟩

/-- `enqueue_page_to_buddy_pool` that returned: a merge loop, then a link. -/
theorem enqueuePageToBuddyPool_shape
    {pool after : PageBuddy}
    {idx : Nat}
    (executed : enqueuePageToBuddyPool pool idx = some after) :
    ∃ endIdx merged,
      enqueueLoop (pagePoolMaxOrder - (pool.array idx).order)
          (pool.array idx).order idx
          ((unmarkPageUsage pool idx).modify idx
            fun pf => { pf with used := false }) = some (endIdx, merged) ∧
        after =
          (clearClusteredPages merged endIdx).queueAdd
            ((clearClusteredPages merged endIdx).array endIdx).order
            endIdx := by
  simp only [enqueuePageToBuddyPool] at executed
  split_ifs at executed
  split at executed
  · cases executed
  · rename_i endIdx merged looped
    split_ifs at executed
    cases executed
    exact ⟨endIdx, merged, looped, rfl⟩

/-- The pool after a block is marked as handed out. -/
def handOutPage
    (pool : PageBuddy)
    (idx : Nat)
    (usage : PageUsage) : PageBuddy :=
  (markPageUsage (setupClusteredPages pool idx) idx usage).modify idx
    fun pf => { pf with used := true, usecnt := 1 }

/-- What one attempt to take a block of an order out of a region did. -/
inductive Taken
    (pool : PageBuddy)
    (order : Nat)
    (usage : PageUsage) :
    Except Errno Nat → PageBuddy → Prop where
  | failed
      (code : Errno) :
      Taken pool order usage (.error code) pool
  | taken
      {curOrder idx : Nat}
      {rest : List Nat}
      {adjusted : PageBuddy}
      (above : order ≤ curOrder)
      (bound : curOrder < pagePoolMaxOrder)
      (listed : pool.pageList curOrder = idx :: rest)
      (adjustedOrder :
        adjustPageOrder (pool.queueGetTop curOrder rest) idx order =
          some adjusted) :
      Taken pool order usage
        (.ok ((handOutPage adjusted idx usage).array idx).pfn)
        (handOutPage adjusted idx usage)

theorem dequeueLoop_shape
    {order remaining curOrder : Nat}
    {usage : PageUsage}
    {pool after : PageBuddy}
    {result : Except Errno Nat}
    (above : order ≤ curOrder)
    (total : curOrder + remaining = pagePoolMaxOrder)
    (executed :
      dequeueLoop order usage remaining curOrder pool =
        some (result, after)) :
    Taken pool order usage result after := by
  induction remaining generalizing curOrder with
  | zero =>
      cases executed
      exact .failed .enomem
  | succ remaining inductionHypothesis =>
      simp only [dequeueLoop] at executed
      split at executed
      · exact inductionHypothesis (by omega) (by omega) executed
      · rename_i idx rest listed
        split at executed
        · cases executed
        · rename_i adjusted adjustedOrder
          cases executed
          exact .taken above (by omega) listed adjustedOrder

/-- `dequeue_page_from_memory_area` that returned: nothing, or one block split off. -/
theorem dequeuePageFromMemoryArea_shape
    {pool after : PageBuddy}
    {order : Nat}
    {usage : PageUsage}
    {result : Except Errno Nat}
    (executed :
      dequeuePageFromMemoryArea pool order usage = some (result, after)) :
    Taken pool order usage result after := by
  simp only [dequeuePageFromMemoryArea] at executed
  split_ifs at executed with tooLarge
  · cases executed
    exact .failed .einval
  · exact dequeueLoop_shape (Nat.le_refl order) (by omega) executed

/-- What `pfdb_buddy_dequeue` did to a database: nothing, or one region changed. -/
inductive DbTaken
    (db : List PfdbEnt)
    (order : Nat)
    (usage : PageUsage) :
    Except Errno Nat → List PfdbEnt → Prop where
  | failed
      (code : Errno) :
      DbTaken db order usage (.error code) db
  | taken
      {ent : PfdbEnt}
      {pool : PageBuddy}
      {pfn : Nat}
      {after : List PfdbEnt}
      (replaced : PoolReplaced ent pool db after)
      (executed :
        dequeuePageFromMemoryArea ent.pagePool order usage =
          some (.ok pfn, pool)) :
      DbTaken db order usage (.ok pfn) after

theorem pfdbBuddyDequeue_shape
    {order : Nat}
    {usage : PageUsage}
    {db after : List PfdbEnt}
    {result : Except Errno Nat}
    (executed : pfdbBuddyDequeue order usage db = some (result, after)) :
    DbTaken db order usage result after := by
  induction db generalizing result after with
  | nil =>
      cases executed
      exact .failed .enomem
  | cons ent rest inductionHypothesis =>
      simp only [pfdbBuddyDequeue] at executed
      split at executed
      · cases executed
      · rename_i pool inRegion
        obtain ⟨⟨laterResult, later⟩, laterExecuted, shape⟩ :=
          Option.map_eq_some_iff.mp executed
        cases shape
        -- a region without a block of the order is left as it was
        have samePool : pool = ent.pagePool := by
          cases dequeuePageFromMemoryArea_shape inRegion
          rfl
        subst samePool
        cases inductionHypothesis laterExecuted with
        | failed code =>
            exact .failed code
        | taken replaced inLater =>
            obtain ⟨earlier, others, rfl, rfl⟩ := replaced.shape
            exact .taken ⟨ent :: earlier, others, rfl, rfl⟩ inLater
      · rename_i found pool notExhausted inRegion
        cases executed
        cases dequeuePageFromMemoryArea_shape inRegion with
        | failed code =>
            exact .failed code
        | taken =>
            exact .taken ⟨[], rest, rfl, rfl⟩ inRegion

/-! ## The calls of a run -/

/-- What one call does to a database that satisfies the invariant. -/
inductive PfdbChange
    (state : PfdbState) :
    PfdbCall → PfdbState → Prop where
  | added
      {sizes : StructSizes}
      {region : PhysRegion}
      {raw : RawMemory}
      {pool : PageBuddy}
      {db : List PfdbEnt}
      (usable :
        addUsablePages (regionLayout sizes region).inUse
            (List.range (regionLayout sizes region).nrPages)
            (initPool raw (regionLayout sizes region).nrPages
              (regionLayout sizes region).minPfn) =
          some pool)
      (inserted :
        pfdbInsert
            { kvaddr := (regionLayout sizes region).kvaddr
              length := (regionLayout sizes region).length
              minPfn := (regionLayout sizes region).minPfn
              maxPfn := (regionLayout sizes region).maxPfn
              pagePool := pool }
            state.db =
          some db) :
      PfdbChange state (.add sizes region raw) ⟨db, state.allocated⟩
  | exhausted
      (order : Nat)
      (usage : PageUsage) :
      PfdbChange state (.dequeue order usage) state
  | taken
      {order idx : Nat}
      {usage : PageUsage}
      {ent : PfdbEnt}
      {pool : PageBuddy}
      {db : List PfdbEnt}
      (member : ent ∈ state.db)
      (replaced : PoolReplaced ent pool state.db db)
      (holds : ent.Holds (ent.minPfn + idx))
      (took : Taken ent.pagePool order usage (.ok (ent.minPfn + idx)) pool)
      (sameRegion : SameRegion ent.pagePool pool) :
      PfdbChange state (.dequeue order usage)
        ⟨db, ⟨ent.minPfn + idx, order⟩ :: state.allocated⟩
  | counted
      {call : PfdbCall}
      {pfn : Nat}
      {usecnt : Int32}
      {ent : PfdbEnt}
      {db : List PfdbEnt}
      (called : call = .incUseCount pfn ∨ call = .decUseCount pfn)
      (member : ent ∈ state.db)
      (replaced :
        PoolReplaced ent
          (ent.pagePool.modify (pfn - ent.minPfn) fun pf => { pf with usecnt })
          state.db db)
      (holds : ent.Holds pfn) :
      PfdbChange state call ⟨db, state.allocated⟩
  | returned
      {pfn : Nat}
      {block : Block}
      {ent : PfdbEnt}
      {pool : PageBuddy}
      {db : List PfdbEnt}
      (member : ent ∈ state.db)
      (replaced : PoolReplaced ent pool state.db db)
      (holds : ent.Holds pfn)
      (wasLive : block ∈ ent.liveBlocks state.allocated)
      (starts : block.start = pfn - ent.minPfn)
      (enqueued :
        enqueuePageToBuddyPool
            (ent.pagePool.modify block.start fun pf => { pf with usecnt := 0 })
            block.start =
          some pool)
      (sameRegion : SameRegion ent.pagePool pool)
      (live :
        ent.liveBlocks
            (state.allocated.eraseP fun held => held.pfn = pfn) =
          (ent.liveBlocks state.allocated).erase block) :
      PfdbChange state (.decUseCount pfn)
        ⟨db, state.allocated.eraseP fun held => held.pfn = pfn⟩

/-- A region of a database is still a member after its pool was replaced. -/
theorem PoolReplaced.mem
    {ent : PfdbEnt}
    {pool : PageBuddy}
    {db after : List PfdbEnt}
    (replaced : PoolReplaced ent pool db after) :
    ent ∈ db ∧ { ent with pagePool := pool } ∈ after := by
  obtain ⟨earlier, later, rfl, rfl⟩ := replaced.shape
  simp

/-- Writing the value that is there already changes no pool. -/
theorem modify_usecnt_self
    (pool : PageBuddy)
    (idx : Nat) :
    (pool.modify idx fun pf =>
      { pf with usecnt := (pool.array idx).usecnt }) = pool := by
  simp only [PageBuddy.modify]
  rw [Function.update_eq_self]

theorem pfdbNext_cases
    {state after : PfdbState}
    {call : PfdbCall}
    (sound : PfdbSound state)
    (stepped : pfdbNext state call = some after) :
    PfdbChange state call after := by
  obtain ⟨db, allocated⟩ := state
  cases call with
  | add sizes region raw =>
      obtain ⟨dbAfter, added, rfl⟩ := Option.map_eq_some_iff.mp stepped
      rw [pfdbAdd, pfdbAddAt] at added
      split at added
      · cases added
      · rename_i pool usable
        split_ifs at added
        exact .added usable added
  | dequeue order usage =>
      obtain ⟨⟨result, dbAfter⟩, executed, rfl⟩ :=
        Option.map_eq_some_iff.mp stepped
      have shape := pfdbBuddyDequeue_shape executed
      cases shape with
      | failed code =>
          exact .exhausted order usage
      | @taken ent pool pfn _ replaced took =>
          have member := replaced.mem.1
          have before := sound.ents ent member
          obtain ⟨_, _, tookSound, dequeued⟩ :=
            dequeuePageFromMemoryArea_sound before.pool order usage
          rw [took] at tookSound
          cases tookSound
          cases dequeued with
          | @taken idx _ inRegion _ region =>
              have size := before.nrPages
              rw [before.pfn] at took ⊢
              exact .taken member replaced
                (by simp only [PfdbEnt.Holds]; omega)
                (dequeuePageFromMemoryArea_shape took) region
  | incUseCount pfn =>
      obtain ⟨⟨result, dbAfter⟩, found, rfl⟩ :=
        Option.map_eq_some_iff.mp stepped
      obtain ⟨ent, member, pool, replaced, holds, operated⟩ :=
        atPageFrame_shape found
      simp only [pfdbIncPageUseCount, Option.some.injEq] at operated
      split at operated
      · cases operated
        rw [← modify_usecnt_self ent.pagePool (pfn - ent.minPfn)] at replaced
        exact .counted (.inl rfl) member replaced holds
      · cases operated
        exact .counted (.inl rfl) member replaced holds
  | decUseCount pfn =>
      obtain ⟨⟨last, dbAfter⟩, found, rfl⟩ :=
        Option.map_eq_some_iff.mp stepped
      obtain ⟨ent, member, pool, replaced, holds, operated⟩ :=
        atPageFrame_shape found
      have before := sound.ents ent member
      obtain ⟨region, poolSound⟩ :=
        pfdbDecPageUseCount_sound before.pool operated
      simp only [pfdbDecPageUseCount] at operated
      split at operated
      · cases operated
      · rename_i nonneg
        obtain ⟨block, wasLive, starts⟩ :=
          before.pool.countedHead _ (usecnt_ne_zero_of_dec nonneg)
        split at operated
        · rename_i zero
          rw [zero, ← starts] at operated
          split at operated
          · obtain ⟨linked, executed, shape⟩ :=
              Option.map_eq_some_iff.mp operated
            cases shape
            have unique : ∀ other ∈ ent.liveBlocks allocated,
                other.start = block.start → other = block := by
              intro other otherMember sameStart
              exact before.pool.tiles.eq_of_contains (by simp [otherMember])
                (by simp [wasLive]) other.contains_start
                (sameStart ▸ block.contains_start)
            refine .returned member replaced holds wasLive starts executed
              region ?_
            rw [liveBlocks_eraseP holds, ← starts,
              eraseP_start_eq_erase unique]
          · cases operated
        · cases operated
          exact .counted (.inr rfl) member replaced holds

end RiscvWorkshop.Pfdb
