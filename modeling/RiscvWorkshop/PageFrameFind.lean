import Mathlib
import RiscvWorkshop.SearchTree
import RiscvWorkshop.PageFrameShape

namespace RiscvWorkshop.Pfdb

open BuddyTiling SearchTree

/-!
# The page frame of a page frame number

The regions are the nodes of a search tree; a database is the list of them
from left to right.  A lookup compares a region of one page with the regions
on the way down.
-/

/-- A word of page frame numbers. -/
def pfnLimit : Nat := 2 ^ 64

/-- A page pool of zeroes. -/
def zeroPool : PageBuddy :=
  initPool
    { frames := fun _ =>
        { used := false
          reserved := false
          clustered := false
          usecase := fun _ => false
          pfn := 0
          usecnt := 0
          mapcnt := 0
          order := 0
          headp := none }
      usagePages := fun _ => 0 }
    0 0

/-- The key of a lookup: a region that holds one page. -/
def lookupKey (pfn : Nat) : PfdbEnt :=
  { kvaddr := 0
    length := 0
    minPfn := pfn
    maxPfn := (pfn + 1) % pfnLimit
    pagePool := zeroPool }

/--
`RB_FIND` by `_pfdb_ent_cmp`.  The search ends where the comparison returns 0
or stops at its assertion.
-/
def pfdbFind
    (tree : NodeTree PfdbEnt)
    (key : PfdbEnt) : Option (Option PfdbEnt) :=
  match tree.find fun ent => (pfdbEntCmp key ent).getD 0 with
  | none => some none
  | some ent =>
      match pfdbEntCmp key ent with
      | none => none
      | some _ => some (some ent)

/-- `pfn_to_page_frame`; the index into the array is an `int`. -/
def pfnToPageFrame
    (tree : NodeTree PfdbEnt)
    (pfn : Nat) : Option (Except Errno PageFrame) :=
  match pfdbFind tree (lookupKey pfn) with
  | none => none
  | some none => some (.error .esrch)
  | some (some res) =>
      let idx := (pfn - res.minPfn) % 2 ^ 32
      if idx < 2 ^ 31 then some (.ok (res.pagePool.array idx)) else none

/-- `pfdb_pfn_to_page_frame`. -/
def pfdbPfnToPageFrame
    (tree : NodeTree PfdbEnt)
    (pfn : Nat) : Option (Except Errno PageFrame) :=
  (pfnToPageFrame tree pfn).map fun
    | .ok pf => .ok pf
    | .error _ => .error .esrch

/-- `kcom_is_pfn_valid`. -/
def kcomIsPfnValid
    (tree : NodeTree PfdbEnt)
    (pfn : Nat) : Option Bool :=
  (pfnToPageFrame tree pfn).map fun
    | .ok _ => true
    | .error _ => false

/-- The free pages that `remove_pfdb_ent_common` sums up. -/
def freePages (pool : PageBuddy) : Int :=
  ∑ order ∈ Finset.range pagePoolMaxOrder, pool.freeNr order * 2 ^ order

/-- `remove_pfdb_ent_common` of the region at a place: none for `-EBUSY`. -/
def removePfdbEntCommon
    (place : Nat)
    (db : List PfdbEnt) : Option (List PfdbEnt) :=
  match db[place]? with
  | none => none
  | some ent =>
      if (ent.pagePool.availablePages : Int) ≠ freePages ent.pagePool then none
      else some (db.eraseIdx place)

/-- The calls of a run in which regions come and go. -/
inductive RegionCall where
  | call (call : PfdbCall)
  | remove (place : Nat)

/-- One call; a region that is in use stays. -/
def regionNext (state : PfdbState) : RegionCall → Option PfdbState
  | .call call => pfdbNext state call
  | .remove place =>
      some
        { state with db := (removePfdbEntCommon place state.db).getD state.db }

/--
A lookup yields the page frame of the number in its region, and `-ESRCH` when
no region has it.
-/
structure LookupRight
    (tree : NodeTree PfdbEnt)
    (pfn : Nat) : Prop where
  found : ∀ ent ∈ tree.toList, ent.Holds pfn →
    pfdbPfnToPageFrame tree pfn =
        some (.ok (ent.pagePool.array (pfn - ent.minPfn))) ∧
      (ent.pagePool.array (pfn - ent.minPfn)).pfn = pfn
  missing :
    (∀ ent ∈ tree.toList, ¬ ent.Holds pfn) →
      pfdbPfnToPageFrame tree pfn = some (.error .esrch)
  valid :
    kcomIsPfnValid tree pfn =
      some (decide (∃ ent ∈ tree.toList, ent.Holds pfn))

/-! ## The comparison -/

/-- The regions as the database keeps them, within the words of page numbers. -/
structure RegionsSorted (db : List PfdbEnt) : Prop where
  regions : db.Pairwise fun above below => below.maxPfn ≤ above.minPfn
  ordered : ∀ ent ∈ db, ent.minPfn ≤ ent.maxPfn
  small : ∀ ent ∈ db, ent.maxPfn < 2 ^ 31

/-- The comparison of a page with a region on its side or around it. -/
theorem pfdbEntCmp_lookupKey
    {pfn : Nat}
    {ent : PfdbEnt}
    (bound : pfn < pfnLimit)
    (ordered : ent.minPfn ≤ ent.maxPfn)
    (small : ent.maxPfn < 2 ^ 31) :
    pfdbEntCmp (lookupKey pfn) ent =
      if ent.Holds pfn then
        if pfn + 1 = ent.maxPfn then none else some 0
      else if pfn < ent.minPfn ∨ pfn + 1 = pfnLimit then some 1
      else some (-1) := by
  have limit : pfnLimit = 18446744073709551616 := rfl
  rw [limit] at bound ⊢
  simp only [pfdbEntCmp, lookupKey, limit]
  by_cases holds : ent.Holds pfn
  · have inside := holds
    rw [PfdbEnt.Holds] at inside
    have next : (pfn + 1) % 18446744073709551616 = pfn + 1 := by omega
    rw [next, if_pos holds, if_neg (by omega), if_neg (by omega)]
    by_cases last : pfn + 1 = ent.maxPfn
    · rw [if_pos last, if_neg (by omega)]
    · rw [if_neg last, if_pos (by omega)]
  · have outside := holds
    rw [PfdbEnt.Holds] at outside
    rw [if_neg holds]
    by_cases before : pfn < ent.minPfn ∨ pfn + 1 = 18446744073709551616
    · rw [if_pos before, if_pos (by omega)]
    · rw [if_neg before, if_neg (by omega), if_pos (by omega)]

/-- The comparisons of a page agree with the order of the regions. -/
theorem RegionsSorted.search
    {db : List PfdbEnt}
    (sorted : RegionsSorted db)
    {pfn : Nat}
    (bound : pfn < pfnLimit) :
    db.Pairwise fun earlier later =>
      0 < (pfdbEntCmp (lookupKey pfn) earlier).getD 0 ∨
        (pfdbEntCmp (lookupKey pfn) later).getD 0 < 0 := by
  refine sorted.regions.imp_of_mem fun {above below} aboveMem belowMem apart => ?_
  have aboveOrdered := sorted.ordered above aboveMem
  have belowOrdered := sorted.ordered below belowMem
  rw [pfdbEntCmp_lookupKey bound aboveOrdered (sorted.small above aboveMem),
    pfdbEntCmp_lookupKey bound belowOrdered (sorted.small below belowMem)]
  by_cases before : pfn < above.minPfn ∨ pfn + 1 = pfnLimit
  · have outside : ¬ above.Holds pfn := by
      have limit : pfnLimit = 18446744073709551616 := rfl
      have aboveSmall := sorted.small above aboveMem
      rw [PfdbEnt.Holds]
      omega
    rw [if_neg outside, if_pos before]
    exact .inl Int.one_pos
  · have outside : ¬ below.Holds pfn := by
      rw [PfdbEnt.Holds]
      omega
    have notBefore : ¬ (pfn < below.minPfn ∨ pfn + 1 = pfnLimit) := by
      omega
    rw [if_neg outside, if_neg notBefore]
    exact .inr (by decide)

/-- The search of a tree of regions ends at the region that has the page. -/
theorem RegionsSorted.find
    {tree : NodeTree PfdbEnt}
    (sorted : RegionsSorted tree.toList)
    {pfn : Nat}
    (bound : pfn < pfnLimit) :
    (tree.find fun ent => (pfdbEntCmp (lookupKey pfn) ent).getD 0) =
      tree.toList.find? (·.Holds pfn) := by
  rw [NodeTree.find_eq_find? (sorted.search bound)]
  refine List.find?_congr fun ent member => ?_
  rw [pfdbEntCmp_lookupKey bound (sorted.ordered ent member)
    (sorted.small ent member)]
  split_ifs <;> simp_all

/-- No other region has the page. -/
theorem RegionsSorted.unique
    {db : List PfdbEnt}
    (sorted : RegionsSorted db)
    {pfn : Nat}
    {ent : PfdbEnt}
    (member : ent ∈ db)
    (holds : ent.Holds pfn) :
    db.find? (·.Holds pfn) = some ent := by
  have oneSide : db.Pairwise fun above below =>
      above.Holds pfn → ¬ below.Holds pfn :=
    sorted.regions.imp fun apart => (not_holds_of_ne apart).1
  obtain ⟨before, after, rfl⟩ := List.append_of_mem member
  rw [List.find?_append, List.find?_cons_of_pos (by simpa using holds)]
  have earlier : before.find? (·.Holds pfn) = none := by
    rw [List.find?_eq_none]
    intro other inBefore
    have apart :=
      (List.pairwise_append.mp oneSide).2.2 other inBefore ent
        List.mem_cons_self
    simpa using fun otherHolds => apart otherHolds holds
  rw [earlier, Option.none_or]

/-! ## The lookup -/

/-- What the lookup returns, by the region that has the page. -/
theorem pfnToPageFrame_eq
    {tree : NodeTree PfdbEnt}
    (sorted : RegionsSorted tree.toList)
    {pfn : Nat}
    (bound : pfn < pfnLimit) :
    pfnToPageFrame tree pfn =
      match tree.toList.find? (·.Holds pfn) with
      | none => some (.error .esrch)
      | some ent =>
          if pfn + 1 = ent.maxPfn then none
          else some (.ok (ent.pagePool.array (pfn - ent.minPfn))) := by
  rw [pfnToPageFrame, pfdbFind, sorted.find bound]
  cases located : tree.toList.find? (·.Holds pfn) with
  | none =>
      rfl
  | some ent =>
      have member := List.mem_of_find?_eq_some located
      have holds : ent.Holds pfn := by simpa using List.find?_some located
      have small := sorted.small ent member
      have inside := holds
      rw [PfdbEnt.Holds] at inside
      simp only [pfdbEntCmp_lookupKey bound (sorted.ordered ent member) small,
        if_pos holds]
      by_cases last : pfn + 1 = ent.maxPfn
      · rw [if_pos last, if_pos last]
      · rw [if_neg last, if_neg last]
        have index : (pfn - ent.minPfn) % 2 ^ 32 = pfn - ent.minPfn := by
          omega
        simp only [index]
        rw [if_pos (by omega)]

/-- The lookup of a page is right exactly when it is not the last of a region. -/
theorem lookupRight_iff
    {tree : NodeTree PfdbEnt}
    (sorted : RegionsSorted tree.toList)
    (numbered : ∀ ent ∈ tree.toList, ∀ idx,
      (ent.pagePool.array idx).pfn = ent.minPfn + idx)
    {pfn : Nat}
    (bound : pfn < pfnLimit) :
    LookupRight tree pfn ↔
      ∀ ent ∈ tree.toList, ent.Holds pfn → pfn + 1 ≠ ent.maxPfn := by
  have result := pfnToPageFrame_eq sorted bound
  constructor
  · intro right ent member holds last
    obtain ⟨found, -⟩ := right.found ent member holds
    rw [sorted.unique member holds] at result
    simp only [if_pos last] at result
    rw [pfdbPfnToPageFrame, result] at found
    cases found
  · intro notLast
    cases located : tree.toList.find? (·.Holds pfn) with
    | none =>
        rw [located] at result
        have nowhere : ∀ ent ∈ tree.toList, ¬ ent.Holds pfn := by
          simpa using List.find?_eq_none.mp located
        refine ⟨fun ent member holds => absurd holds (nowhere ent member),
          fun _ => ?_, ?_⟩
        · rw [pfdbPfnToPageFrame, result]
          rfl
        · have noRegion : ¬ ∃ ent ∈ tree.toList, ent.Holds pfn :=
            fun ⟨ent, member, holds⟩ => nowhere ent member holds
          rw [kcomIsPfnValid, result, decide_eq_false noRegion]
          rfl
    | some ent =>
        have member := List.mem_of_find?_eq_some located
        have holds : ent.Holds pfn := by simpa using List.find?_some located
        rw [located] at result
        simp only [if_neg (notLast ent member holds)] at result
        refine ⟨fun other otherMember otherHolds => ?_,
          fun nowhere => absurd holds (nowhere ent member), ?_⟩
        · have same := sorted.unique otherMember otherHolds
          rw [located, Option.some.injEq] at same
          subst same
          refine ⟨by rw [pfdbPfnToPageFrame, result]; rfl, ?_⟩
          rw [numbered ent member]
          exact Nat.add_sub_cancel' holds.1
        · have someRegion : ∃ ent ∈ tree.toList, ent.Holds pfn :=
            ⟨ent, member, holds⟩
          rw [kcomIsPfnValid, result, decide_eq_true someRegion]
          rfl

/-! ## Regions that come and go -/

/-- A region that is free as a whole has no block that a caller holds. -/
theorem EntSound.liveBlocks_of_free
    {ent : PfdbEnt}
    {allocated : List Allocation}
    (sound : EntSound ent allocated)
    (free :
      (ent.pagePool.availablePages : Int) = freePages ent.pagePool) :
    ent.liveBlocks allocated = [] := by
  have total := sound.accounted.total
  rw [free, freePages] at total
  have none : ((ent.liveBlocks allocated).map Block.size).sum = 0 := by
    have sizes : (((ent.liveBlocks allocated).map Block.size).sum : Int) = 0 :=
      by linarith
    exact_mod_cast sizes
  rw [List.eq_nil_iff_forall_not_mem]
  intro block member
  have size := List.sum_eq_zero_iff.mp none _ (List.mem_map_of_mem member)
  exact absurd size block.size_pos.ne'

/-- A region that is removed takes no block of a caller with it. -/
theorem PfdbSound.remove
    {db after : List PfdbEnt}
    {allocated : List Allocation}
    {place : Nat}
    (sound : PfdbSound ⟨db, allocated⟩)
    (removed : removePfdbEntCommon place db = some after) :
    PfdbSound ⟨after, allocated⟩ := by
  rw [removePfdbEntCommon] at removed
  cases located : db[place]? with
  | none =>
      rw [located] at removed
      cases removed
  | some ent =>
      rw [located] at removed
      simp only at removed
      split_ifs at removed with busy
      cases removed
      have sublist := List.eraseIdx_sublist db place
      have nobody :=
        (sound.ents ent (List.mem_of_getElem? located)).liveBlocks_of_free
          (not_not.mp busy)
      refine ⟨sound.regions.sublist sublist,
        fun other member => sound.ordered other (sublist.subset member),
        fun other member => sound.ents other (sublist.subset member),
        fun held member => ?_⟩
      obtain ⟨other, otherMember, holds⟩ := sound.held held member
      refine ⟨other, ?_, holds⟩
      obtain ⟨index, bound, atIndex⟩ := List.getElem_of_mem otherMember
      by_cases same : index = place
      · subst same
        have isEnt : other = ent := by
          rw [← atIndex]
          exact Option.some.inj
            ((List.getElem?_eq_getElem bound).symm.trans located)
        have live : ⟨held.pfn - ent.minPfn, held.order⟩ ∈
            ent.liveBlocks allocated := by
          rw [PfdbEnt.liveBlocks, List.mem_filterMap]
          exact ⟨held, member, by rw [if_pos (isEnt ▸ holds)]⟩
        rw [nobody] at live
        cases live
      · rw [← atIndex]
        exact List.mem_eraseIdx_iff_getElem.mpr ⟨index, bound, same, rfl⟩

/-- The regions of the straight map have small page numbers. -/
theorem regionLayout_maxPfn
    (sizes : StructSizes)
    (region : PhysRegion) :
    (regionLayout sizes region).maxPfn < 2 ^ 31 := by
  have size : pageSize = 4096 := rfl
  have mapped := region.mapped
  simp only [regionLayout, halKvaddrToPfn, roundupAlign, truncateAlign]
  rw [size] at mapped ⊢
  have base : halKernVmaBase = 18446743936270598144 := rfl
  rw [pageShift, base, Nat.shiftRight_eq_div_pow]
  generalize halPhysToKvaddr region.physStart = kvaddr at *
  omega

/-- The bounds of the regions of a database. -/
def SmallRegions (state : PfdbState) : Prop :=
  ∀ ent ∈ state.db, ent.maxPfn < 2 ^ 31

/-- A call on the pages changes no bound, and a new region is small. -/
theorem SmallRegions.step
    {state after : PfdbState}
    {call : PfdbCall}
    (small : SmallRegions state)
    (sound : PfdbSound state)
    (stepped : pfdbNext state call = some after) :
    SmallRegions after := by
  have replacedSmall : ∀ {changed pool db allocated},
      PoolReplaced changed pool state.db db →
        SmallRegions ⟨db, allocated⟩ := by
    intro changed pool db allocated replaced ent member
    obtain ⟨earlier, others, before, rfl⟩ := replaced.shape
    have bound := small
    rw [SmallRegions, before] at bound
    rcases List.mem_append.mp member with inEarlier | inLater
    · exact bound ent (by simp [inEarlier])
    · rcases List.mem_cons.mp inLater with rfl | inLater
      · exact bound changed (by simp)
      · exact bound ent (by simp [inLater])
  cases pfdbNext_cases sound stepped with
  | @added sizes region _ _ _ _ inserted =>
      obtain ⟨earlier, later, shape, rfl, -⟩ := pfdbInsert_shape inserted
      intro ent member
      have bound := small
      rw [SmallRegions, shape] at bound
      rcases List.mem_append.mp member with inEarlier | inLater
      · exact bound ent (by simp [inEarlier])
      · rcases List.mem_cons.mp inLater with rfl | inLater
        · exact regionLayout_maxPfn sizes region
        · exact bound ent (by simp [inLater])
  | exhausted => exact small
  | taken _ replaced => exact replacedSmall replaced
  | counted _ _ replaced => exact replacedSmall replaced
  | returned _ replaced => exact replacedSmall replaced

/-- A region that is registered goes to its place in the tree. -/
theorem pfdbInsert_tree
    {tree : NodeTree PfdbEnt}
    {new : PfdbEnt}
    {after : List PfdbEnt}
    {allocated : List Allocation}
    (rebalancing : Rebalancing PfdbEnt)
    (sound : PfdbSound ⟨tree.toList, allocated⟩)
    (nonempty : new.minPfn < new.maxPfn)
    (inserted : pfdbInsert new tree.toList = some after) :
    ∃ grown,
      (tree.insert (fun ent => (pfdbEntCmp new ent).getD 0) new).map
          rebalancing.afterInsert = some grown ∧
        grown.toList = after := by
  obtain ⟨earlier, later, nodes, rfl, above, below⟩ := sound.insert_apart inserted
  have positive : ∀ ent ∈ earlier, 0 < (pfdbEntCmp new ent).getD 0 := by
    intro ent member
    rw [pfdbEntCmp, if_pos (above ent member)]
    decide
  have negative : ∀ ent ∈ later, (pfdbEntCmp new ent).getD 0 < 0 := by
    intro ent member
    have apart := below ent member
    have ordered := sound.ordered ent (nodes ▸ List.mem_append_right _ member)
    rw [pfdbEntCmp, if_neg (by omega), if_pos apart]
    decide
  obtain ⟨grown, placed, shape⟩ :=
    NodeTree.insert_of_place new
      (NodeTree.place_of_split nodes positive negative)
  exact ⟨_, by rw [placed, Option.map_some],
    (rebalancing.afterInsert_toList grown).trans shape⟩

/-- The invariant of the runs in which regions come and go. -/
structure RegionsSound (state : PfdbState) : Prop where
  sound : PfdbSound state
  small : SmallRegions state

/-- Regions that come and go leave the database sound. -/
theorem regions_of_run
    {calls : List RegionCall}
    {final : PfdbState}
    (run : Run (StepOf regionNext) .empty calls final) :
    RegionsSound final := by
  refine run.invariant ⟨pfdbSound_empty, nofun⟩
    fun {state call after} regions stepped => ?_
  obtain ⟨sound, small⟩ := regions
  cases call with
  | call call =>
      exact ⟨sound.step stepped, small.step sound stepped⟩
  | remove place =>
      cases stepped
      cases removed : removePfdbEntCommon place state.db with
      | none =>
          exact ⟨sound, small⟩
      | some db =>
          refine ⟨sound.remove removed, fun ent member => small ent ?_⟩
          rw [removePfdbEntCommon] at removed
          cases located : state.db[place]? with
          | none =>
              rw [located] at removed
              cases removed
          | some other =>
              rw [located] at removed
              simp only at removed
              split_ifs at removed
              cases removed
              exact (List.eraseIdx_sublist state.db place).subset member

/--
In every state that registrations, removals and page operations reach, and
however the tree of its regions is balanced, the lookup of a page number is
right exactly when the page is not the last one of a region.
-/
theorem lookup_right_iff_of_runs
    {calls : List RegionCall}
    {final : PfdbState}
    (run : Run (StepOf regionNext) .empty calls final)
    {tree : NodeTree PfdbEnt}
    (nodes : tree.toList = final.db)
    {pfn : Nat}
    (bound : pfn < pfnLimit) :
    LookupRight tree pfn ↔
      ∀ ent ∈ final.db, ent.Holds pfn → pfn + 1 ≠ ent.maxPfn := by
  obtain ⟨sound, small⟩ := regions_of_run run
  rw [← nodes]
  refine lookupRight_iff ?_ (fun ent member => ?_) bound
  · rw [nodes]
    exact ⟨sound.regions, sound.ordered, small⟩
  · rw [nodes] at member
    exact (sound.ents ent member).pfn

/-! ## Eight pages -/

/-- A tree that was never rebalanced: each region to the right of the last. -/
def spine : List PfdbEnt → NodeTree PfdbEnt
  | [] => .leaf
  | ent :: rest => .node .leaf ent (spine rest)

theorem spine_toList (db : List PfdbEnt) : (spine db).toList = db := by
  induction db with
  | nil =>
      rfl
  | cons ent rest inductionHypothesis =>
      rw [spine, NodeTree.toList, inductionHypothesis]
      rfl

/-- One region, of the pages from 0x80000 to 0x80007. -/
def eightPagesCalls : List RegionCall :=
  [.call (.add ⟨200, 400⟩ eightPages dirtyMemory)]

/-- The first page of the region is found. -/
theorem lookup_right_first_page :
    ∃ final,
      execute regionNext .empty eightPagesCalls = some final ∧
        (∃ ent ∈ final.db, ent.Holds 0x80000) ∧
        LookupRight (spine final.db) 0x80000 := by
  obtain ⟨final, executed⟩ : ∃ final,
      execute regionNext .empty eightPagesCalls = some final :=
    Option.isSome_iff_exists.mp (by decide +kernel)
  have facts :
      (execute regionNext .empty eightPagesCalls).map
          (fun final =>
            (decide (∃ ent ∈ final.db, ent.Holds 0x80000),
              decide (∀ ent ∈ final.db, 0x80000 + 1 ≠ ent.maxPfn))) =
        some (true, true) := by
    decide +kernel
  rw [executed, Option.map_some, Option.some.injEq] at facts
  simp only [Prod.mk.injEq, decide_eq_true_eq] at facts
  refine ⟨final, executed, facts.1, ?_⟩
  exact (lookup_right_iff_of_runs (.of_execute executed)
    (spine_toList final.db) (by decide)).mpr
      fun ent member _ => facts.2 ent member

/-- The lookup of the last page of the region stops at the assertion. -/
theorem lookup_of_last_page_stops :
    (execute regionNext .empty eightPagesCalls).map
        (fun final =>
          (decide (∃ ent ∈ final.db, ent.Holds 0x80007),
            (pfdbPfnToPageFrame (spine final.db) 0x80007).isSome,
            kcomIsPfnValid (spine final.db) 0x80007)) =
      some (true, false, none) := by
  decide +kernel

end RiscvWorkshop.Pfdb
