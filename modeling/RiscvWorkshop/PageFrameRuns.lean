import Mathlib
import RiscvWorkshop.PageFrameDb

namespace RiscvWorkshop.Pfdb

open BuddyTiling

/-!
# Every run keeps each region tiled

The blocks that `pfdb_buddy_dequeue` returned are the live blocks of the pool
of their region.  The invariant ties each pool to them, keeps the regions
apart, and is carried through every call.
-/

/-- The blocks of a region that its callers hold, by their index in the region. -/
def PfdbEnt.liveBlocks
    (ent : PfdbEnt)
    (allocated : List Allocation) : List Block :=
  allocated.filterMap fun held =>
    if ent.Holds held.pfn then
      some ⟨held.pfn - ent.minPfn, held.order⟩
    else
      none

/-- The invariant of one region. -/
structure EntSound
    (ent : PfdbEnt)
    (allocated : List Allocation) : Prop where
  pool : PoolSound ent.pagePool [] (ent.liveBlocks allocated)
  nrPages : ent.pagePool.nrPages = ent.maxPfn - ent.minPfn
  pfn : ∀ idx, (ent.pagePool.array idx).pfn = ent.minPfn + idx
  available :
    ent.pagePool.availablePages =
      ((Finset.range ent.pagePool.nrPages).filter
        ent.pagePool.Unreserved).card

/-- The invariant of the database. -/
structure PfdbSound (state : PfdbState) : Prop where
  regions :
    state.db.Pairwise fun above below => below.maxPfn ≤ above.minPfn
  ordered : ∀ ent ∈ state.db, ent.minPfn ≤ ent.maxPfn
  ents : ∀ ent ∈ state.db, EntSound ent state.allocated
  held : ∀ held ∈ state.allocated, ∃ ent ∈ state.db, ent.Holds held.pfn

/-- The database without regions satisfies the invariant. -/
theorem pfdbSound_empty : PfdbSound .empty := by
  constructor <;> simp [PfdbState.empty]

/-! ## The record of the callers -/

theorem liveBlocks_cons_of_not_holds
    {ent : PfdbEnt}
    {held : Allocation}
    (outside : ¬ ent.Holds held.pfn)
    (allocated : List Allocation) :
    ent.liveBlocks (held :: allocated) = ent.liveBlocks allocated := by
  simp [PfdbEnt.liveBlocks, outside]

theorem liveBlocks_eraseP_of_not_holds
    {ent : PfdbEnt}
    {pfn : Nat}
    (outside : ¬ ent.Holds pfn)
    (allocated : List Allocation) :
    ent.liveBlocks (allocated.eraseP fun held => held.pfn = pfn) =
      ent.liveBlocks allocated := by
  induction allocated with
  | nil =>
      rfl
  | cons held rest inductionHypothesis =>
      by_cases same : held.pfn = pfn
      · have heldOutside : ¬ ent.Holds held.pfn := same ▸ outside
        rw [List.eraseP_cons_of_pos (by simpa using same),
          liveBlocks_cons_of_not_holds heldOutside]
      · rw [List.eraseP_cons_of_neg (by simpa using same)]
        simp only [PfdbEnt.liveBlocks] at inductionHypothesis
        simp only [PfdbEnt.liveBlocks, List.filterMap_cons]
        rw [inductionHypothesis]

/-- Forgetting an allocation erases the block that starts at its page. -/
theorem liveBlocks_eraseP
    {ent : PfdbEnt}
    {pfn : Nat}
    (holds : ent.Holds pfn)
    (allocated : List Allocation) :
    ent.liveBlocks (allocated.eraseP fun held => held.pfn = pfn) =
      (ent.liveBlocks allocated).eraseP fun block =>
        block.start = pfn - ent.minPfn := by
  induction allocated with
  | nil =>
      rfl
  | cons held rest inductionHypothesis =>
      by_cases same : held.pfn = pfn
      · rw [List.eraseP_cons_of_pos (by simpa using same)]
        simp [PfdbEnt.liveBlocks, same, holds]
      · rw [List.eraseP_cons_of_neg (by simpa using same)]
        simp only [PfdbEnt.liveBlocks] at inductionHypothesis
        simp only [PfdbEnt.liveBlocks, List.filterMap_cons]
        rw [inductionHypothesis]
        by_cases heldHolds : ent.Holds held.pfn
        · have different : held.pfn - ent.minPfn ≠ pfn - ent.minPfn := by
            simp only [PfdbEnt.Holds] at holds heldHolds
            omega
          simp [heldHolds, different]
        · simp [heldHolds]

/-- When one member starts at a page, erasing by start erases that member. -/
theorem eraseP_start_eq_erase
    {blocks : List Block}
    {block : Block}
    (unique : ∀ other ∈ blocks, other.start = block.start → other = block) :
    (blocks.eraseP fun other => other.start = block.start) =
      blocks.erase block := by
  induction blocks with
  | nil =>
      rfl
  | cons head rest inductionHypothesis =>
      have later := inductionHypothesis fun other member =>
        unique other (List.mem_cons_of_mem _ member)
      by_cases same : head.start = block.start
      · obtain rfl := unique head (List.mem_cons_self ..) same
        rw [List.eraseP_cons_of_pos (by simp), List.erase_cons_head]
      · have different : head ≠ block := fun equal => same (equal ▸ rfl)
        rw [List.eraseP_cons_of_neg (by simpa using same),
          List.erase_cons_tail (by simpa using different), later]

/-! ## Replacing the pool of one region -/

/-- The regions of a database with one pool replaced. -/
structure PoolReplaced
    (ent : PfdbEnt)
    (pool : PageBuddy)
    (before after : List PfdbEnt) : Prop where
  shape :
    ∃ earlier later,
      before = earlier ++ ent :: later ∧
        after = earlier ++ { ent with pagePool := pool } :: later

/-- Regions of a database hold different page frame numbers. -/
theorem not_holds_of_ne
    {above below : PfdbEnt}
    {pfn : Nat}
    (apart : below.maxPfn ≤ above.minPfn) :
    (above.Holds pfn → ¬ below.Holds pfn) ∧
      (below.Holds pfn → ¬ above.Holds pfn) := by
  simp only [PfdbEnt.Holds]
  omega

/-- After a pool is replaced, every other region was there and lacks its pages. -/
theorem PoolReplaced.mem_after
    {db after : List PfdbEnt}
    {ent other : PfdbEnt}
    {pool : PageBuddy}
    {pfn : Nat}
    (replaced : PoolReplaced ent pool db after)
    (regions : db.Pairwise fun above below => below.maxPfn ≤ above.minPfn)
    (holds : ent.Holds pfn)
    (member : other ∈ after) :
    other = { ent with pagePool := pool } ∨
      (other ∈ db ∧ ¬ other.Holds pfn) := by
  obtain ⟨earlier, later, rfl, rfl⟩ := replaced.shape
  rw [List.pairwise_append, List.pairwise_cons] at regions
  rcases List.mem_append.mp member with inEarlier | inLater
  · have apart := regions.2.2 other inEarlier ent (List.mem_cons_self ..)
    exact .inr ⟨by simp [inEarlier], (not_holds_of_ne apart).2 holds⟩
  · rcases List.mem_cons.mp inLater with rfl | inLater
    · exact .inl rfl
    · have apart := regions.2.1.1 other inLater
      exact .inr ⟨by simp [inLater], (not_holds_of_ne apart).1 holds⟩

/--
A call that replaces the pool of the region of one page, and changes the
record only at that page, keeps the invariant of the database.
-/
theorem PfdbSound.replace
    {db after : List PfdbEnt}
    {allocated allocatedAfter : List Allocation}
    {ent : PfdbEnt}
    {pool : PageBuddy}
    {pfn : Nat}
    (sound : PfdbSound ⟨db, allocated⟩)
    (replaced : PoolReplaced ent pool db after)
    (holds : ent.Holds pfn)
    (newSound : EntSound { ent with pagePool := pool } allocatedAfter)
    (elsewhere :
      ∀ other : PfdbEnt, ¬ other.Holds pfn →
        other.liveBlocks allocatedAfter = other.liveBlocks allocated)
    (recorded :
      ∀ held ∈ allocatedAfter, held.pfn = pfn ∨ held ∈ allocated) :
    PfdbSound ⟨after, allocatedAfter⟩ := by
  obtain ⟨regions, ordered, ents, known⟩ := sound
  simp only at regions ordered ents known
  have oldMember : ∀ other ∈ after,
      other = { ent with pagePool := pool } ∨
        (other ∈ db ∧ ¬ other.Holds pfn) :=
    fun _ member => replaced.mem_after regions holds member
  obtain ⟨earlier, later, rfl, rfl⟩ := replaced.shape
  refine ⟨?_, ?_, ?_, ?_⟩
  · simpa [List.pairwise_append, List.pairwise_cons] using regions
  · intro other member
    rcases oldMember other member with rfl | ⟨older, _⟩
    · exact ordered ent (by simp)
    · exact ordered other older
  · intro other member
    rcases oldMember other member with rfl | ⟨older, outside⟩
    · exact newSound
    · have before := ents other older
      refine ⟨?_, before.nrPages, before.pfn, before.available⟩
      rw [elsewhere other outside]
      exact before.pool
  · intro held member
    rcases recorded held member with same | older
    · exact ⟨{ ent with pagePool := pool }, by simp, same ▸ holds⟩
    · obtain ⟨other, otherMember, otherHolds⟩ := known held older
      rcases List.mem_append.mp otherMember with inEarlier | inLater
      · exact ⟨other, by simp [inEarlier], otherHolds⟩
      · rcases List.mem_cons.mp inLater with rfl | inLater
        · exact ⟨{ other with pagePool := pool }, by simp, otherHolds⟩
        · exact ⟨other, by simp [inLater], otherHolds⟩

/-! ## Registration -/

/-- A successful insertion puts the region between its neighbours. -/
theorem pfdbInsert_shape
    {new : PfdbEnt} :
    ∀ {db after : List PfdbEnt},
      pfdbInsert new db = some after →
      ∃ earlier later,
        db = earlier ++ later ∧
          after = earlier ++ new :: later ∧
          (∀ ent ∈ earlier, new.maxPfn ≤ ent.minPfn) ∧
          (∀ ent ∈ later.head?, ent.maxPfn ≤ new.minPfn) := by
  intro db
  induction db with
  | nil =>
      intro after inserted
      cases inserted
      exact ⟨[], [], rfl, rfl, by simp, by simp⟩
  | cons ent rest inductionHypothesis =>
      intro after inserted
      by_cases above : new.maxPfn ≤ ent.minPfn
      · simp only [pfdbInsert, pfdbEntCmp, if_pos above] at inserted
        rw [if_neg (by decide), if_pos (by decide),
          Option.map_eq_some_iff] at inserted
        obtain ⟨restAfter, restInserted, rfl⟩ := inserted
        obtain ⟨earlier, later, rfl, rfl, earlierApart, laterApart⟩ :=
          inductionHypothesis restInserted
        refine ⟨ent :: earlier, later, rfl, rfl, ?_, laterApart⟩
        simpa [above] using earlierApart
      · by_cases below : ent.maxPfn ≤ new.minPfn
        · simp only [pfdbInsert, pfdbEntCmp, if_neg above, if_pos below]
            at inserted
          rw [if_pos (by decide)] at inserted
          cases inserted
          exact ⟨[], ent :: rest, rfl, rfl, by simp, by simpa using below⟩
        · simp only [pfdbInsert, pfdbEntCmp, if_neg above, if_neg below]
            at inserted
          split at inserted
          · cases inserted
          · rename_i order same
            split at same
            · cases same
              simp at inserted
            · cases same

/-- A region inserted into a sound database lies apart from all others. -/
theorem PfdbSound.insert_apart
    {db after : List PfdbEnt}
    {allocated : List Allocation}
    {new : PfdbEnt}
    (sound : PfdbSound ⟨db, allocated⟩)
    (inserted : pfdbInsert new db = some after) :
    ∃ earlier later,
      db = earlier ++ later ∧
        after = earlier ++ new :: later ∧
        (∀ ent ∈ earlier, new.maxPfn ≤ ent.minPfn) ∧
        ∀ ent ∈ later, ent.maxPfn ≤ new.minPfn := by
  obtain ⟨earlier, later, rfl, rfl, earlierApart, laterApart⟩ :=
    pfdbInsert_shape inserted
  refine ⟨earlier, later, rfl, rfl, earlierApart, ?_⟩
  obtain ⟨regions, ordered, _, _⟩ := sound
  simp only at regions ordered
  rw [List.pairwise_append] at regions
  cases later with
  | nil =>
      simp
  | cons head rest =>
      have headApart := laterApart head rfl
      have headOrdered := ordered head (by simp)
      have restApart := (List.pairwise_cons.mp regions.2.1).1
      simp only [List.mem_cons, forall_eq_or_imp]
      refine ⟨headApart, fun ent member => ?_⟩
      exact (restApart ent member).trans (headOrdered.trans headApart)

/-- Nobody holds a page of a region that is only now inserted. -/
theorem PfdbSound.insert_liveBlocks
    {db after : List PfdbEnt}
    {allocated : List Allocation}
    {new : PfdbEnt}
    (sound : PfdbSound ⟨db, allocated⟩)
    (inserted : pfdbInsert new db = some after) :
    new.liveBlocks allocated = [] := by
  obtain ⟨earlier, later, rfl, rfl, earlierApart, laterApart⟩ :=
    sound.insert_apart inserted
  simp only [PfdbEnt.liveBlocks, List.filterMap_eq_nil_iff]
  intro held member
  obtain ⟨ent, entMember, holds⟩ := sound.held held member
  have outside : ¬ new.Holds held.pfn := by
    rcases List.mem_append.mp entMember with inEarlier | inLater
    · exact (not_holds_of_ne (earlierApart ent inEarlier)).1 holds
    · exact (not_holds_of_ne (laterApart ent inLater)).2 holds
  simp [outside]

/-- Inserting a sound region without callers keeps the database sound. -/
theorem PfdbSound.insert
    {db after : List PfdbEnt}
    {allocated : List Allocation}
    {new : PfdbEnt}
    (sound : PfdbSound ⟨db, allocated⟩)
    (inserted : pfdbInsert new db = some after)
    (newOrdered : new.minPfn ≤ new.maxPfn)
    (newSound : EntSound new []) :
    PfdbSound ⟨after, allocated⟩ := by
  have nobody := sound.insert_liveBlocks inserted
  obtain ⟨earlier, later, rfl, rfl, earlierApart, laterAll⟩ :=
    sound.insert_apart inserted
  obtain ⟨regions, ordered, ents, known⟩ := sound
  simp only at regions ordered ents known
  rw [List.pairwise_append] at regions
  refine ⟨?_, ?_, ?_, ?_⟩
  · rw [List.pairwise_append, List.pairwise_cons]
    refine ⟨regions.1, ⟨laterAll, regions.2.1⟩, ?_⟩
    intro ent inEarlier other member
    rcases List.mem_cons.mp member with rfl | inLater
    · exact earlierApart ent inEarlier
    · exact regions.2.2 ent inEarlier other inLater
  · intro ent member
    rcases List.mem_append.mp member with inEarlier | others
    · exact ordered ent (by simp [inEarlier])
    · rcases List.mem_cons.mp others with rfl | inLater
      · exact newOrdered
      · exact ordered ent (by simp [inLater])
  · intro ent member
    rcases List.mem_append.mp member with inEarlier | others
    · exact ents ent (by simp [inEarlier])
    · rcases List.mem_cons.mp others with rfl | inLater
      · refine ⟨?_, newSound.nrPages, newSound.pfn, newSound.available⟩
        rw [nobody]
        exact newSound.pool
      · exact ents ent (by simp [inLater])
  · intro held member
    obtain ⟨ent, entMember, holds⟩ := known held member
    refine ⟨ent, ?_, holds⟩
    rcases List.mem_append.mp entMember with inEarlier | inLater <;>
      simp [*]

/-- Making one reserved page available to the pool. -/
theorem PoolSound.unreserve
    {pool : PageBuddy}
    {live : List Block}
    {idx : Nat}
    (sound : PoolSound pool [] live)
    (bound : idx < pool.nrPages)
    (isReserved : (pool.array idx).reserved = true) :
    PoolSound (pool.modify idx fun pf => { pf with reserved := false })
      [⟨idx, 0⟩] live := by
  have notHead : ∀ block ∈ pool.freeBlocks ++ live, block.start ≠ idx := by
    rintro block member rfl
    have unreserved :=
      sound.tiles.available_of_member member block.contains_start
    simp only [PageBuddy.Unreserved, isReserved] at unreserved
    cases unreserved
  have reservedElsewhere : ∀ other,
      (pool.modify idx fun pf => { pf with reserved := false }).Unreserved
          other ↔ other = idx ∨ pool.Unreserved other := by
    intro other
    by_cases same : other = idx <;> simp [PageBuddy.Unreserved, same]
  refine ⟨?_, sound.counts, ?_, ?_, ?_, ?_, ?_⟩
  · refine sound.tiles.addPage bound ?_ fun other _ => reservedElsewhere other
    simp [PageBuddy.Unreserved, isReserved]
  · intro block member
    have different := notHead block (List.mem_append_left _ member)
    simpa [different] using sound.freeHead block member
  · intro block member
    have different := notHead block (List.mem_append_right _ member)
    simpa [different] using sound.liveHead block member
  · simpa [pagePoolMaxOrder] using sound.orders
  · intro other otherBound unreserved isUsed
    by_cases same : other = idx
    · exact ⟨⟨idx, 0⟩, by simp, same.symm⟩
    · rw [PageBuddy.modify_array_of_ne same] at isUsed
      have older := ((reservedElsewhere other).mp unreserved).resolve_left same
      obtain ⟨block, member, starts⟩ :=
        sound.usedHead other otherBound older isUsed
      exact ⟨block, List.mem_cons_of_mem _ member, starts⟩
  · intro other counted
    by_cases same : other = idx
    · subst same
      simp only [PageBuddy.modify_array_self] at counted
      exact sound.countedHead other counted
    · rw [PageBuddy.modify_array_of_ne same] at counted
      exact sound.countedHead other counted

/-- What the page frame array of a new region keeps while pages are added. -/
structure RegionReady
    (pool : PageBuddy)
    (nrPages minPfn : Nat) : Prop where
  sound : PoolSound pool [] []
  nrPages : pool.nrPages = nrPages
  pfn : ∀ idx, (pool.array idx).pfn = minPfn + idx
  available :
    pool.availablePages =
      ((Finset.range pool.nrPages).filter pool.Unreserved).card

/-- Giving one more page to the pool keeps it ready. -/
theorem RegionReady.addPage
    {pool : PageBuddy}
    {nrPages minPfn idx : Nat}
    (ready : RegionReady pool nrPages minPfn)
    (bound : idx < nrPages)
    (isReserved : (pool.array idx).reserved = true)
    (orderZero : (pool.array idx).order = 0) :
    ∃ linked,
      enqueuePageToBuddyPool
          (pool.modify idx fun pf => { pf with reserved := false }) idx =
        some linked ∧
      SameRegion
        (pool.modify idx fun pf => { pf with reserved := false }) linked ∧
      RegionReady
        { linked with availablePages := linked.availablePages + 1 }
        nrPages minPfn := by
  have bound' : idx < pool.nrPages := ready.nrPages ▸ bound
  have unreserved := ready.sound.unreserve bound' isReserved
  obtain ⟨linked, executed, linkedSound, region⟩ :=
    enqueuePageToBuddyPool_sound unreserved (by simp [orderZero])
  refine ⟨linked, executed, region, ⟨linkedSound.tiles, linkedSound.counts,
    linkedSound.freeHead, linkedSound.liveHead, linkedSound.orders,
    linkedSound.usedHead, linkedSound.countedHead⟩,
    region.nrPages.trans ready.nrPages, ?_, ?_⟩
  · intro other
    refine (region.pfn other).trans
      ((?_ : _ = _).trans (ready.pfn other))
    by_cases same : other = idx <;> simp [same]
  · have grown :
        (Finset.range linked.nrPages).filter linked.Unreserved =
          insert idx
            ((Finset.range pool.nrPages).filter pool.Unreserved) := by
      ext other
      simp only [Finset.mem_filter, Finset.mem_range,
        Finset.mem_insert, PageBuddy.Unreserved, region.reserved,
        region.nrPages]
      by_cases same : other = idx
      · subst same
        simpa [PageBuddy.modify] using bound'
      · simp [same, PageBuddy.modify]
    have notYet :
        idx ∉ (Finset.range pool.nrPages).filter pool.Unreserved := by
      simp [PageBuddy.Unreserved, isReserved]
    show linked.availablePages + 1 =
      ((Finset.range linked.nrPages).filter linked.Unreserved).card
    rw [grown, Finset.card_insert_of_notMem notYet, ← ready.available]
    exact congrArg (· + 1) region.availablePages

/--
What holds of the pool that registration starts from and of the pages still to
come, and survives each round, holds of the pool that registration ends with.
-/
theorem addUsablePages_invariant
    {inUse : Nat → Bool}
    {nrPages minPfn : Nat}
    (property : List Nat → PageBuddy → Prop)
    (skipped :
      ∀ {pool : PageBuddy} {idx : Nat} {rest : List Nat},
        property (idx :: rest) pool →
        inUse idx = true →
        property rest pool)
    (preserved :
      ∀ {pool linked : PageBuddy} {idx : Nat} {rest : List Nat},
        RegionReady pool nrPages minPfn →
        property (idx :: rest) pool →
        idx < nrPages →
        (pool.array idx).reserved = true →
        (pool.array idx).order = 0 →
        inUse idx = false →
        enqueuePageToBuddyPool
            (pool.modify idx fun pf => { pf with reserved := false }) idx =
          some linked →
        property rest
          { linked with availablePages := linked.availablePages + 1 }) :
    ∀ {pages : List Nat} {pool after : PageBuddy},
      RegionReady pool nrPages minPfn →
      property pages pool →
      pages.Nodup →
      (∀ idx ∈ pages,
        idx < nrPages ∧ (pool.array idx).reserved = true ∧
          (pool.array idx).order = 0) →
      addUsablePages inUse pages pool = some after →
      RegionReady after nrPages minPfn ∧ property [] after := by
  intro pages
  induction pages with
  | nil =>
      intro pool after ready holds _ _ added
      cases added
      exact ⟨ready, holds⟩
  | cons idx rest inductionHypothesis =>
      intro pool after ready holds nodup fresh added
      obtain ⟨notInRest, restNodup⟩ := List.nodup_cons.mp nodup
      simp only [List.mem_cons, forall_eq_or_imp] at fresh
      obtain ⟨⟨bound, isReserved, orderZero⟩, restFresh⟩ := fresh
      simp only [addUsablePages] at added
      split at added
      · rename_i occupied
        exact inductionHypothesis ready (skipped holds occupied) restNodup
          restFresh added
      · rename_i usable
        obtain ⟨linked, executed, region, linkedReady⟩ :=
          ready.addPage bound isReserved orderZero
        rw [executed] at added
        refine inductionHypothesis linkedReady
          (preserved ready holds bound isReserved orderZero
            (Bool.eq_false_iff.mpr usable) executed)
          restNodup ?_ added
        intro other member
        obtain ⟨otherBound, otherReserved, otherOrder⟩ :=
          restFresh other member
        have different : other ≠ idx := fun same => notInRest (same ▸ member)
        have stillReserved :
            ((pool.modify idx fun pf => { pf with reserved := false }).array
              other).reserved = true := by
          simpa [different] using otherReserved
        refine ⟨otherBound, (region.reserved other).trans stillReserved, ?_⟩
        refine (region.reservedOrder other stillReserved).trans ?_
        simpa [different] using otherOrder

/-- The loop of `pfdb_add` builds a sound pool, if it does not stop. -/
theorem addUsablePages_sound
    {inUse : Nat → Bool}
    {nrPages minPfn : Nat}
    {pages : List Nat}
    {pool after : PageBuddy}
    (ready : RegionReady pool nrPages minPfn)
    (nodup : pages.Nodup)
    (fresh :
      ∀ idx ∈ pages,
        idx < nrPages ∧ (pool.array idx).reserved = true ∧
          (pool.array idx).order = 0)
    (added : addUsablePages inUse pages pool = some after) :
    RegionReady after nrPages minPfn :=
  (addUsablePages_invariant (fun _ _ => True) (fun _ _ => trivial)
    (fun _ _ _ _ _ _ _ => trivial) ready trivial nodup fresh added).1

/-- The pool that registration starts from is ready. -/
theorem regionReady_initPool
    (raw : RawMemory)
    (nrPages minPfn : Nat) :
    RegionReady (initPool raw nrPages minPfn) nrPages minPfn := by
  have noBlocks : (initPool raw nrPages minPfn).freeBlocks = [] := by
    simp [PageBuddy.freeBlocks, blocksOf, initPool]
  have notUnreserved : ∀ idx,
      ¬ (initPool raw nrPages minPfn).Unreserved idx := by
    simp [PageBuddy.Unreserved, initPool, initFrame]
  refine ⟨⟨?_, ?_, ?_, by simp, by simp, ?_, ?_⟩, rfl, fun _ => rfl, ?_⟩
  · rw [noBlocks]
    refine ⟨by simp, by simp, ?_, fun _ _ _ => by simp [cover]⟩
    intro idx _ unreserved
    exact absurd unreserved (notUnreserved idx)
  · simp [initPool]
  · simp [noBlocks]
  · intro idx _ unreserved
    exact absurd unreserved (notUnreserved idx)
  · simp [initPool, initFrame]
  · rw [Finset.filter_false_of_mem fun idx _ => notUnreserved idx,
      Finset.card_empty]
    rfl

/-- The usable pages of a new region make a ready pool. -/
theorem addUsablePages_initPool
    {inUse : Nat → Bool}
    {raw : RawMemory}
    {nrPages minPfn : Nat}
    {after : PageBuddy}
    (added :
      addUsablePages inUse (List.range nrPages)
        (initPool raw nrPages minPfn) = some after) :
    RegionReady after nrPages minPfn :=
  addUsablePages_sound (regionReady_initPool raw nrPages minPfn)
    List.nodup_range
    (fun _ member => ⟨List.mem_range.mp member, rfl, rfl⟩) added

/-- The page frame numbers of a region do not run backwards. -/
theorem regionLayout_ordered
    (sizes : StructSizes)
    (region : PhysRegion) :
    (regionLayout sizes region).minPfn ≤
      (regionLayout sizes region).maxPfn := by
  have size : pageSize = 4096 := rfl
  simp only [regionLayout, halKvaddrToPfn, halPhysToKvaddr, roundupAlign,
    truncateAlign]
  rw [size, pageShift, Nat.shiftRight_eq_div_pow, Nat.shiftRight_eq_div_pow,
    Nat.shiftRight_eq_div_pow, Nat.shiftLeft_eq]
  refine Nat.div_le_div_right ?_
  have base : halKernVmaBase % 4096 = 0 := by decide
  generalize halKernVmaBase = vmaBase at *
  omega

/-- `pfdb_add` keeps the database sound. -/
theorem PfdbSound.add
    {db after : List PfdbEnt}
    {allocated : List Allocation}
    {sizes : StructSizes}
    {region : PhysRegion}
    {raw : RawMemory}
    (sound : PfdbSound ⟨db, allocated⟩)
    (added : pfdbAdd sizes region raw db = some after) :
    PfdbSound ⟨after, allocated⟩ := by
  have ordered := regionLayout_ordered sizes region
  rw [pfdbAdd] at added
  generalize regionLayout sizes region = layout at ordered added
  rw [pfdbAddAt] at added
  split at added
  · cases added
  · rename_i pool usable
    split at added
    · have ready := addUsablePages_initPool usable
      refine sound.insert added ordered ?_
      exact ⟨ready.sound, ready.nrPages, ready.pfn, ready.available⟩
    · cases added

/-! ## Allocation and use counts -/

/-- What `pfdb_buddy_dequeue` does to a sound database. -/
inductive DbDequeued
    (db : List PfdbEnt)
    (allocated : List Allocation)
    (order : Nat) :
    Except Errno Nat → List PfdbEnt → Prop where
  | failed
      (code : Errno) :
      DbDequeued db allocated order (.error code) db
  | taken
      {ent : PfdbEnt}
      {pool : PageBuddy}
      {idx : Nat}
      {after : List PfdbEnt}
      (replaced : PoolReplaced ent pool db after)
      (inRegion : idx < ent.pagePool.nrPages)
      (sound : PoolSound pool [] (⟨idx, order⟩ :: ent.liveBlocks allocated))
      (region : SameRegion ent.pagePool pool) :
      DbDequeued db allocated order (.ok (ent.pagePool.array idx).pfn) after

/-- `pfdb_buddy_dequeue` never stops, and takes a block of one region or none. -/
theorem pfdbBuddyDequeue_sound
    {allocated : List Allocation}
    (order : Nat)
    (usage : PageUsage) :
    ∀ {db : List PfdbEnt},
      (∀ ent ∈ db, EntSound ent allocated) →
      ∃ result after,
        pfdbBuddyDequeue order usage db = some (result, after) ∧
          DbDequeued db allocated order result after := by
  intro db
  induction db with
  | nil =>
      intro _
      exact ⟨_, _, rfl, .failed .enomem⟩
  | cons ent rest inductionHypothesis =>
      intro ents
      simp only [List.mem_cons, forall_eq_or_imp] at ents
      obtain ⟨result, pool, executed, dequeued⟩ :=
        dequeuePageFromMemoryArea_sound ents.1.pool order usage
      cases dequeued with
      | taken inRegion sound region =>
          refine ⟨_, _, by rw [pfdbBuddyDequeue, executed], ?_⟩
          exact .taken ⟨[], rest, rfl, rfl⟩ inRegion sound region
      | failed code =>
          obtain ⟨laterResult, laterAfter, laterExecuted, laterDequeued⟩ :=
            inductionHypothesis ents.2
          by_cases exhausted : code = .enomem
          · subst exhausted
            refine ⟨laterResult, ent :: laterAfter, ?_, ?_⟩
            · simp [pfdbBuddyDequeue, executed, laterExecuted]
            · cases laterDequeued with
              | failed code =>
                  exact .failed code
              | taken replaced inRegion sound region =>
                  obtain ⟨earlier, later, rfl, rfl⟩ := replaced.shape
                  exact .taken ⟨ent :: earlier, later, rfl, rfl⟩ inRegion
                    sound region
          · refine ⟨.error code, ent :: rest, ?_, .failed code⟩
            cases code <;> simp_all [pfdbBuddyDequeue]

/-- A region keeps its page numbering when its pool changes soundly. -/
theorem EntSound.withPool
    {ent : PfdbEnt}
    {pool : PageBuddy}
    {allocated allocatedAfter : List Allocation}
    (before : EntSound ent allocated)
    (region : SameRegion ent.pagePool pool)
    (sound : PoolSound pool [] (ent.liveBlocks allocatedAfter)) :
    EntSound { ent with pagePool := pool } allocatedAfter where
  pool := sound
  nrPages := region.nrPages.trans before.nrPages
  pfn idx := (region.pfn idx).trans (before.pfn idx)
  available := by
    have sameUnreserved : pool.Unreserved = ent.pagePool.Unreserved := by
      funext idx
      simp only [PageBuddy.Unreserved, region.reserved]
    simp only [region.availablePages, before.available, region.nrPages,
      sameUnreserved]

/-- `pfdb_buddy_dequeue` keeps the database sound and records what it returned. -/
theorem PfdbSound.dequeue
    {db after : List PfdbEnt}
    {allocated : List Allocation}
    {order : Nat}
    {result : Except Errno Nat}
    (sound : PfdbSound ⟨db, allocated⟩)
    (dequeued : DbDequeued db allocated order result after) :
    PfdbSound ⟨after, recordDequeue order allocated result⟩ := by
  cases dequeued with
  | failed code =>
      exact sound
  | @taken ent pool idx after replaced inRegion poolSound region =>
      have member : ent ∈ db := by
        obtain ⟨earlier, later, rfl, rfl⟩ := replaced.shape
        simp
      have before := sound.ents ent member
      have numbered := before.pfn idx
      have holds : ent.Holds (ent.pagePool.array idx).pfn := by
        have size := before.nrPages
        simp only [PfdbEnt.Holds, numbered]
        omega
      refine sound.replace replaced holds (before.withPool region ?_) ?_ ?_
      · have shape :
            ent.liveBlocks (⟨(ent.pagePool.array idx).pfn, order⟩ :: allocated) =
              ⟨idx, order⟩ :: ent.liveBlocks allocated := by
          have index : (ent.pagePool.array idx).pfn - ent.minPfn = idx := by
            omega
          simp [PfdbEnt.liveBlocks, holds, index]
        rw [recordDequeue, shape]
        exact poolSound
      · intro other outside
        exact liveBlocks_cons_of_not_holds outside allocated
      · intro held heldMember
        rcases List.mem_cons.mp heldMember with rfl | older
        · exact .inl rfl
        · exact .inr older

/-- An operation at a page frame runs on the pool of its region. -/
theorem atPageFrame_shape
    {Result : Type}
    {operation : PageBuddy → Nat → Option (Result × PageBuddy)}
    {pfn : Nat}
    {result : Result} :
    ∀ {db after : List PfdbEnt},
      atPageFrame operation pfn db = some (result, after) →
      ∃ ent ∈ db, ∃ pool,
        PoolReplaced ent pool db after ∧ ent.Holds pfn ∧
          operation ent.pagePool (pfn - ent.minPfn) = some (result, pool) := by
  intro db
  induction db with
  | nil =>
      intro after found
      cases found
  | cons ent rest inductionHypothesis =>
      intro after found
      simp only [atPageFrame] at found
      split at found
      · rename_i holds
        obtain ⟨⟨found, pool⟩, operated, shape⟩ :=
          Option.map_eq_some_iff.mp found
        cases shape
        exact ⟨ent, by simp, pool, ⟨[], rest, rfl, rfl⟩, holds, operated⟩
      · obtain ⟨⟨found, laterAfter⟩, laterFound, shape⟩ :=
          Option.map_eq_some_iff.mp found
        cases shape
        obtain ⟨other, member, pool, replaced, holds, operated⟩ :=
          inductionHypothesis laterFound
        obtain ⟨earlier, later, rfl, rfl⟩ := replaced.shape
        exact ⟨other, by simp, pool, ⟨ent :: earlier, later, rfl, rfl⟩, holds,
          operated⟩

/-- Writing a use count is sound when a counted page heads a live block. -/
theorem PoolSound.setUsecnt
    {pool : PageBuddy}
    {live : List Block}
    {idx : Nat}
    (sound : PoolSound pool [] live)
    (usecnt : Int32)
    (headed : ∃ block ∈ live, block.start = idx) :
    PoolSound (pool.modify idx fun pf => { pf with usecnt }) [] live := by
  have region :
      SameRegion pool (pool.modify idx fun pf => { pf with usecnt }) :=
    .setUsecnt pool idx usecnt
  have sameHead : ∀ other,
      ((pool.modify idx fun pf => { pf with usecnt }).array other).order =
          (pool.array other).order ∧
        ((pool.modify idx fun pf => { pf with usecnt }).array other).used =
          (pool.array other).used := by
    intro other
    by_cases same : other = idx <;> simp [same]
  refine ⟨?_, sound.counts, ?_, ?_, sound.orders, ?_, ?_⟩
  · refine sound.tiles.congr fun page _ => ?_
    simp only [PageBuddy.Unreserved, region.reserved]
  · intro block member
    rw [(sameHead block.start).1, (sameHead block.start).2]
    exact sound.freeHead block member
  · intro block member
    rw [(sameHead block.start).1, (sameHead block.start).2]
    exact sound.liveHead block member
  · intro other bound unreserved isUsed
    simp only [PageBuddy.Unreserved, region.reserved] at unreserved
    rw [(sameHead other).2] at isUsed
    exact sound.usedHead other bound unreserved isUsed
  · intro other counted
    by_cases same : other = idx
    · exact same ▸ headed
    · rw [PageBuddy.modify_array_of_ne same] at counted
      exact sound.countedHead other counted

/-- `pfdb_inc_page_use_count` changes no block. -/
theorem pfdbIncPageUseCount_sound
    {pool : PageBuddy}
    {live : List Block}
    (sound : PoolSound pool [] live)
    (idx : Nat) :
    PoolSound (pfdbIncPageUseCount pool idx).2 [] live ∧
      SameRegion pool (pfdbIncPageUseCount pool idx).2 := by
  unfold pfdbIncPageUseCount
  split
  · exact ⟨sound, .refl pool⟩
  · rename_i counted
    exact ⟨sound.setUsecnt _ (sound.countedHead idx counted),
      .setUsecnt pool idx _⟩

/-- A counter that stays non-negative when it drops was not zero. -/
theorem usecnt_ne_zero_of_dec
    {usecnt : Int32}
    (nonneg : ¬ usecnt - 1 < 0) :
    usecnt ≠ 0 := by
  rintro rfl
  exact nonneg (by decide)

/-- `pfdb_dec_page_use_count` gives a live block back, or changes no block. -/
theorem pfdbDecPageUseCount_sound
    {pool after : PageBuddy}
    {live : List Block}
    {idx : Nat}
    {last : Bool}
    (sound : PoolSound pool [] live)
    (dropped : pfdbDecPageUseCount pool idx = some (last, after)) :
    SameRegion pool after ∧
      PoolSound after []
        (if last then live.eraseP fun block => block.start = idx
          else live) := by
  simp only [pfdbDecPageUseCount] at dropped
  split at dropped
  · cases dropped
  · rename_i nonneg
    obtain ⟨block, member, rfl⟩ :=
      sound.countedHead idx (usecnt_ne_zero_of_dec nonneg)
    split at dropped
    · rename_i zero
      rw [zero] at dropped
      split at dropped
      · have released := sound.release member
        obtain ⟨linked, executed, linkedSound, region⟩ :=
          enqueuePageToBuddyPool_sound
            (show PoolSound _ [⟨block.start, block.order⟩] _ from released)
            (by simpa using (sound.liveHead block member).1)
        rw [executed] at dropped
        cases dropped
        have unique : ∀ other ∈ live, other.start = block.start →
            other = block := by
          intro other otherMember sameStart
          exact sound.tiles.eq_of_contains (by simp [otherMember])
            (by simp [member]) other.contains_start
            (sameStart ▸ block.contains_start)
        refine ⟨(SameRegion.setUsecnt pool block.start 0).trans region, ?_⟩
        rw [if_pos rfl, eraseP_start_eq_erase unique]
        exact linkedSound
      · cases dropped
    · cases dropped
      exact ⟨.setUsecnt pool block.start _,
        sound.setUsecnt _ ⟨block, member, rfl⟩⟩

/-! ## Runs -/

/-- Every call keeps the database sound. -/
theorem PfdbSound.step
    {state after : PfdbState}
    {call : PfdbCall}
    (sound : PfdbSound state)
    (stepped : pfdbNext state call = some after) :
    PfdbSound after := by
  obtain ⟨db, allocated⟩ := state
  cases call with
  | add sizes region raw =>
      obtain ⟨dbAfter, added, rfl⟩ := Option.map_eq_some_iff.mp stepped
      exact sound.add added
  | dequeue order usage =>
      obtain ⟨result, dbAfter, executed, dequeued⟩ :=
        pfdbBuddyDequeue_sound order usage sound.ents
      simp only [pfdbNext, executed, Option.map_some,
        Option.some.injEq] at stepped
      subst stepped
      exact sound.dequeue dequeued
  | incUseCount pfn =>
      obtain ⟨⟨result, dbAfter⟩, found, rfl⟩ :=
        Option.map_eq_some_iff.mp stepped
      obtain ⟨ent, member, pool, replaced, holds, operated⟩ :=
        atPageFrame_shape found
      have before := sound.ents ent member
      obtain ⟨poolSound, region⟩ :=
        pfdbIncPageUseCount_sound before.pool (pfn - ent.minPfn)
      simp only [Option.some.injEq] at operated
      rw [operated] at poolSound region
      exact sound.replace replaced holds (before.withPool region poolSound)
        (fun _ _ => rfl) fun held heldMember => .inr heldMember
  | decUseCount pfn =>
      obtain ⟨⟨last, dbAfter⟩, found, rfl⟩ :=
        Option.map_eq_some_iff.mp stepped
      obtain ⟨ent, member, pool, replaced, holds, operated⟩ :=
        atPageFrame_shape found
      have before := sound.ents ent member
      obtain ⟨region, poolSound⟩ :=
        pfdbDecPageUseCount_sound before.pool operated
      cases last with
      | false =>
          exact sound.replace replaced holds
            (before.withPool region (by simpa using poolSound))
            (fun _ _ => rfl) fun held heldMember => .inr heldMember
      | true =>
          rw [if_pos rfl, ← liveBlocks_eraseP holds] at poolSound
          exact sound.replace replaced holds
            (before.withPool region poolSound)
            (fun other outside =>
              liveBlocks_eraseP_of_not_holds outside allocated)
            fun held heldMember => .inr (List.mem_of_mem_eraseP heldMember)

/-- Every state that a run of calls reaches is sound. -/
theorem pfdbSound_of_run
    {calls : List PfdbCall}
    {final : PfdbState}
    (run : Run (StepOf pfdbNext) .empty calls final) :
    PfdbSound final :=
  run.invariant pfdbSound_empty fun sound stepped => sound.step stepped

/-- The sizes of the blocks on the page lists, order by order. -/
theorem sum_size_blocksOf
    (orders : Nat)
    (pageList : Nat → List Nat) :
    ((blocksOf orders pageList).map Block.size).sum =
      ∑ order ∈ Finset.range orders, (pageList order).length * 2 ^ order := by
  induction orders with
  | zero =>
      rfl
  | succ orders inductionHypothesis =>
      have last :
          (((pageList orders).map fun start =>
            (⟨start, orders⟩ : Block)).map Block.size).sum =
              (pageList orders).length * 2 ^ orders := by
        rw [List.map_map]
        simp [Function.comp_def]
      rw [Finset.sum_range_succ, ← inductionHypothesis, ← last]
      simp [blocksOf, List.range_succ]

/-- Two allocations share no page. -/
def Allocation.Apart (first second : Allocation) : Prop :=
  first.pfn + 2 ^ first.order ≤ second.pfn ∨
    second.pfn + 2 ^ second.order ≤ first.pfn

/-- The accounts of a region, as the allocator has to keep them. -/
structure RegionAccounted
    (ent : PfdbEnt)
    (allocated : List Allocation) : Prop where
  apart :
    (ent.pagePool.freeBlocks ++ ent.liveBlocks allocated).Pairwise Block.Apart
  placed :
    ∀ block ∈ ent.pagePool.freeBlocks ++ ent.liveBlocks allocated,
      2 ^ block.order ∣ block.start ∧
        block.start + 2 ^ block.order ≤ ent.pagePool.nrPages
  counts :
    ∀ order < pagePoolMaxOrder,
      ent.pagePool.freeNr order = (ent.pagePool.pageList order).length
  total :
    ∑ order ∈ Finset.range pagePoolMaxOrder,
          ent.pagePool.freeNr order * 2 ^ order +
        ((ent.liveBlocks allocated).map Block.size).sum =
      ent.pagePool.availablePages
  coverOnce :
    ∀ page < ent.pagePool.nrPages,
      cover (ent.pagePool.freeBlocks ++ ent.liveBlocks allocated) page =
        if (ent.pagePool.array page).reserved then 0 else 1

theorem EntSound.accounted
    {ent : PfdbEnt}
    {allocated : List Allocation}
    (sound : EntSound ent allocated) :
    RegionAccounted ent allocated where
  apart := sound.pool.tiles.apart
  placed block member :=
    ⟨sound.pool.tiles.aligned block member,
      sound.pool.tiles.inside block member⟩
  counts := sound.pool.counts
  total := by
    have sizes := sound.pool.tiles.sum_sizes
    rw [List.nil_append, List.map_append, List.sum_append,
      PageBuddy.freeBlocks, sum_size_blocksOf, ← sound.available] at sizes
    rw [← sizes]
    push_cast
    congr 1
    refine Finset.sum_congr rfl fun order member => ?_
    rw [sound.pool.counts order (Finset.mem_range.mp member)]
  coverOnce page bound := by
    by_cases isReserved : (ent.pagePool.array page).reserved = true
    · rw [if_pos isReserved]
      refine sound.pool.tiles.never page bound ?_
      simp [PageBuddy.Unreserved, isReserved]
    · rw [if_neg isReserved]
      exact sound.pool.tiles.once page bound (Bool.eq_false_iff.mpr isReserved)

/-- No page is held by two callers. -/
theorem PfdbSound.allocated_apart
    {state : PfdbState}
    (sound : PfdbSound state) :
    state.allocated.Pairwise Allocation.Apart := by
  rw [List.pairwise_iff_getElem]
  intro first second firstBound secondBound ordered
  obtain ⟨above, aboveMember, aboveHolds⟩ :=
    sound.held _ (List.getElem_mem firstBound)
  obtain ⟨below, belowMember, belowHolds⟩ :=
    sound.held _ (List.getElem_mem secondBound)
  generalize firstShape : state.allocated[first] = firstHeld at aboveHolds
  generalize secondShape : state.allocated[second] = secondHeld at belowHolds
  have inAbove := (sound.ents above aboveMember).pool.tiles.inside
    ⟨firstHeld.pfn - above.minPfn, firstHeld.order⟩ (by
      have member := List.getElem_mem firstBound
      rw [firstShape] at member
      simp only [List.nil_append, List.mem_append, PfdbEnt.liveBlocks,
        List.mem_filterMap]
      exact .inr ⟨firstHeld, member, by simp [aboveHolds]⟩)
  have inBelow := (sound.ents below belowMember).pool.tiles.inside
    ⟨secondHeld.pfn - below.minPfn, secondHeld.order⟩ (by
      have member := List.getElem_mem secondBound
      rw [secondShape] at member
      simp only [List.nil_append, List.mem_append, PfdbEnt.liveBlocks,
        List.mem_filterMap]
      exact .inr ⟨secondHeld, member, by simp [belowHolds]⟩)
  rw [(sound.ents above aboveMember).nrPages] at inAbove
  rw [(sound.ents below belowMember).nrPages] at inBelow
  simp only [Block.size_mk, PfdbEnt.Holds] at inAbove inBelow aboveHolds
  simp only [PfdbEnt.Holds] at belowHolds
  by_cases same : above = below
  · subst same
    have apart := (sound.ents above aboveMember).pool.tiles.apart
    rw [List.nil_append, List.pairwise_append, PfdbEnt.liveBlocks,
      List.pairwise_filterMap] at apart
    have firstAndSecond :=
      List.pairwise_iff_getElem.mp apart.2.1 first second firstBound
        secondBound ordered
    rw [firstShape, secondShape] at firstAndSecond
    have blocksApart := firstAndSecond
      ⟨firstHeld.pfn - above.minPfn, firstHeld.order⟩
      (by simp [PfdbEnt.Holds, aboveHolds])
      ⟨secondHeld.pfn - above.minPfn, secondHeld.order⟩
      (by simp [PfdbEnt.Holds, belowHolds])
    simp only [Block.Apart, Block.size_mk] at blocksApart
    simp only [Allocation.Apart]
    omega
  · have regionsApart :
        below.maxPfn ≤ above.minPfn ∨ above.maxPfn ≤ below.minPfn := by
      have eitherWay :
          state.db.Pairwise fun above below =>
            below.maxPfn ≤ above.minPfn ∨ above.maxPfn ≤ below.minPfn :=
        sound.regions.imp .inl
      have symmetric : Std.Symm fun above below : PfdbEnt =>
          below.maxPfn ≤ above.minPfn ∨ above.maxPfn ≤ below.minPfn :=
        ⟨fun _ _ apart => apart.symm⟩
      exact eitherWay.forall aboveMember belowMember same
    simp only [Allocation.Apart]
    omega

/--
In every state that calls reach from the empty database, the free and the
allocated blocks of a region are disjoint, aligned and inside the region, the
counts match the lists, the sizes add up to the available pages, and every
page that is not reserved lies in exactly one block.
-/
theorem pfdb_runs_accounted
    {calls : List PfdbCall}
    {final : PfdbState}
    (run : Run (StepOf pfdbNext) .empty calls final) :
    (∀ ent ∈ final.db, RegionAccounted ent final.allocated) ∧
      (∀ held ∈ final.allocated, ∃ ent ∈ final.db, ent.Holds held.pfn) ∧
      final.allocated.Pairwise Allocation.Apart := by
  have sound := pfdbSound_of_run run
  exact ⟨fun ent member => (sound.ents ent member).accounted, sound.held,
    sound.allocated_apart⟩

/-- Memory whose state bits were all set before the region was registered. -/
def dirtyMemory : RawMemory where
  frames _ :=
    { used := true
      reserved := true
      clustered := true
      usecase := fun _ => true
      pfn := 0
      usecnt := 7
      mapcnt := 7
      order := 3
      headp := some 9 }
  usagePages _ := 5

/-- Eight pages at the start of the memory of the board. -/
def eightPages : PhysRegion where
  physStart := 0x80000000
  length := 8 * 4096
  mapped := by decide +kernel

/-- Two allocations that split a block, and their release in the same order. -/
def splitAndFree : List PfdbCall :=
  [.add ⟨200, 400⟩ eightPages dirtyMemory,
    .dequeue 0 .kern, .dequeue 0 .slab, .dequeue 1 .pgtbl,
    .incUseCount 0x80006, .decUseCount 0x80006, .decUseCount 0x80006,
    .decUseCount 0x80004]

theorem pfdb_runs_accounted_splitAndFree :
    ∃ final,
      execute pfdbNext .empty splitAndFree = some final ∧
        (∀ ent ∈ final.db, RegionAccounted ent final.allocated) ∧
        (∀ held ∈ final.allocated, ∃ ent ∈ final.db, ent.Holds held.pfn) ∧
        final.allocated.Pairwise Allocation.Apart := by
  have completes : (execute pfdbNext .empty splitAndFree).isSome = true := by
    decide +kernel
  obtain ⟨final, executed⟩ := Option.isSome_iff_exists.mp completes
  exact ⟨final, executed, pfdb_runs_accounted (.of_execute executed)⟩

end RiscvWorkshop.Pfdb
