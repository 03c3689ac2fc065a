import Mathlib
import RiscvWorkshop.VmMapSteps

namespace RiscvWorkshop.Vm

open Pgtbl

/-!
# Rolling a range back

Between its start and its end a call holds the pages that it has mapped so far.
Mapping the next page adds to them, and unmapping takes the first away; when
none is left, the leaves are those before the call, and no page is missing.
-/

variable {setup : PgtblSetup}
variable {before : PgtblState}
variable {state after : VmState}
variable {managed : Bool}
variable {loose : Nat}
variable {page : MappedPage}
variable {pages : List MappedPage}

/-- A cluster that is held stays so while the page table is walked. -/
theorem ClusterHeld.of_kept
    {pfn order : Nat}
    (held : ClusterHeld state pfn order)
    (kept : FramesKept state.pgtbl after.pgtbl)
    (sameOrder : after.order pfn = state.order pfn) :
    ClusterHeld after pfn order := by
  have apart := fun frame inside =>
    let ⟨notTable, notFree, _⟩ := held.apart frame inside
    kept.apart notTable notFree
  refine
    { usecnt := ?_
      sized := sameOrder.trans held.sized
      apart := fun frame inside =>
        ⟨(apart frame inside).1, (apart frame inside).2,
          (held.apart frame inside).2.2⟩
      tail := ?_ }
  · rw [kept.usecnt pfn held.head_apart.1 held.head_apart.2.1]
    exact held.usecnt
  · intro frame inside isTail
    obtain ⟨notTable, notFree, _⟩ := held.apart frame inside
    rw [kept.usecnt frame notTable notFree]
    exact held.tail frame inside isTail

/-- Returning another cluster keeps a cluster that is held. -/
theorem ClusterHeld.of_returned
    {pfn order other otherOrder : Nat}
    (held : ClusterHeld state pfn order)
    (disjoint :
      (cluster other otherOrder).Disjoint (cluster pfn order)) :
    ClusterHeld (state.returnCluster other otherOrder) pfn order := by
  have different : ∀ frame ∈ cluster pfn order, frame ≠ other := by
    rintro frame inside rfl
    exact disjoint (head_mem_cluster frame otherOrder) inside
  refine
    { usecnt :=
        (Function.update_of_ne
          (different pfn (head_mem_cluster pfn order)) ..).trans held.usecnt
      sized := held.sized
      apart := ?_
      tail := fun frame inside isTail =>
        (Function.update_of_ne (different frame inside) ..).trans
          (held.tail frame inside isTail) }
  intro frame inside
  obtain ⟨notTable, notFree, bound⟩ := held.apart frame inside
  refine ⟨notTable, fun known => ?_, bound⟩
  rcases List.mem_append.mp known with older | returned
  · exact notFree older
  · exact disjoint returned inside

/-- A cluster that is held stays so when another one is taken. -/
theorem ClusterHeld.of_taken
    {pool : PagePool}
    {pfn order other otherOrder : Nat}
    (held : ClusterHeld state pfn order)
    (sound : TreeSound setup state.pgtbl)
    (taken :
      pgifGetFreePageCluster pool state otherOrder = some (other, after)) :
    ClusterHeld after pfn order ∧
      (cluster pfn order).Disjoint (cluster other otherOrder) := by
  obtain ⟨work, _, isFree, free, _, counts, orders, _⟩ :=
    pgifGetFreePageCluster_spec sound taken
  have disjoint : (cluster pfn order).Disjoint (cluster other otherOrder) :=
    fun frame inside taken => (held.apart frame inside).2.1 (isFree taken)
  have different : ∀ frame ∈ cluster pfn order, frame ≠ other := by
    rintro frame inside rfl
    exact disjoint inside (head_mem_cluster frame otherOrder)
  have headDifferent := different pfn (head_mem_cluster pfn order)
  refine
    ⟨{ usecnt := (counts pfn headDifferent).trans held.usecnt
       sized := (orders pfn headDifferent).trans held.sized
       apart := ?_
       tail := fun frame inside isTail =>
        (counts frame (different frame inside)).trans
          (held.tail frame inside isTail) }, disjoint⟩
  intro frame inside
  obtain ⟨notTable, notFree, bound⟩ := held.apart frame inside
  rw [work.tables, free]
  exact ⟨notTable, fun known => notFree (List.mem_of_mem_filter known), bound⟩

/-- The page table maps what it mapped, and as many pages are free. -/
def Undone (setup : PgtblSetup) (before after : PgtblState) : Prop :=
  (∀ vaddr,
      halPgtblExtract setup after.mem vaddr =
        halPgtblExtract setup before.mem vaddr) ∧
    after.free.length = before.free.length

/-- The frames of the clusters that managed pages map. -/
def framesOf (managed : Bool) (pages : List MappedPage) : Nat :=
  if managed then (pages.map fun page => 2 ^ page.pageOrder).sum else 0

/--
The pages that a call has mapped, on what the page table held before it, and
the number of frames that it took and did not map.
-/
structure Holding
    (setup : PgtblSetup)
    (before : PgtblState)
    (managed : Bool)
    (loose : Nat)
    (state : VmState)
    (pages : List MappedPage) : Prop where
  sound : TreeSound setup state.pgtbl
  leaf :
    ∀ page ∈ pages, ∀ vaddr, page.Selects vaddr →
      LeafAt setup state.pgtbl vaddr page.target page.pte
  others :
    ∀ vaddr, (∀ page ∈ pages, ¬ page.Selects vaddr) →
      ∀ level entry,
        LeafAt setup state.pgtbl vaddr level entry ↔
          LeafAt setup before vaddr level entry
  unmapped :
    ∀ page ∈ pages, ∀ vaddr, page.Selects vaddr →
      ∀ level entry, ¬ LeafAt setup before vaddr level entry
  apart :
    pages.Pairwise fun first second =>
      ∀ vaddr, first.Selects vaddr → ¬ second.Selects vaddr
  held :
    managed = true →
      ∀ page ∈ pages, ClusterHeld state page.frame page.pageOrder
  distinct :
    managed = true →
      pages.Pairwise fun first second =>
        (cluster first.frame first.pageOrder).Disjoint
          (cluster second.frame second.pageOrder)
  count :
    state.pgtbl.free.length + state.pgtbl.tables.length +
        framesOf managed pages + loose =
      before.free.length + before.tables.length

namespace Holding

/-- Before the call maps a page it holds none. -/
theorem nil
    (sound : TreeSound setup state.pgtbl) :
    Holding setup state.pgtbl managed 0 state [] :=
  { sound := sound
    leaf := fun _ impossible => nomatch impossible
    others := fun _ _ _ _ => Iff.rfl
    unmapped := fun _ impossible => nomatch impossible
    apart := .nil
    held := fun _ _ impossible => nomatch impossible
    distinct := fun _ => .nil
    count := by cases managed <;> rfl }

/-- When no page is left the reader finds what it found before. -/
theorem extract_eq
    (holding : Holding setup before managed loose state [])
    (sound : TreeSound setup before)
    (vaddr : Nat) :
    halPgtblExtract setup state.pgtbl.mem vaddr =
      halPgtblExtract setup before.mem vaddr :=
  halPgtblExtract_congr sound holding.sound
    (holding.others vaddr fun _ impossible => nomatch impossible)

/-- In a page table that is as tidy as before no frame is missing. -/
theorem free_length
    (holding : Holding setup before managed loose state [])
    (tidy : Tidy setup state.pgtbl)
    (beforeTidy : Tidy setup before)
    (sound : TreeSound setup before)
    (kernelNodup : setup.kernelTables.Nodup) :
    state.pgtbl.free.length + loose = before.free.length := by
  have pages :=
    beforeTidy.nrPages_eq sound tidy holding.sound kernelNodup
      fun {vaddr level entry} =>
        holding.others vaddr (fun _ impossible => nomatch impossible) level
          entry
  have total := holding.count
  have beforePages := sound.pages
  have afterPages := holding.sound.pages
  have none : framesOf managed [] = 0 := by
    cases managed <;> rfl
  omega

/-- Unmapping the first page leaves the others. -/
theorem unmap
    (holding : Holding setup before managed loose state (page :: pages))
    (wellFormed : page.Sound)
    (own : setup.OwnAddr page.vaddr)
    (removed : unmapPage setup state (!managed) page.vaddr = some after) :
    Holding setup before managed loose after pages := by
  have pageHeld :
      (!managed) = false → ClusterHeld state page.frame page.pageOrder := by
    intro isManaged
    exact holding.held (by simpa using isManaged) page List.mem_cons_self
  have leaf :=
    holding.leaf page List.mem_cons_self page.vaddr page.selects_self
  obtain ⟨run, sameOrder⟩ :=
    wellFormed.unmapPage_run holding.sound leaf pageHeld own removed
  have work :=
    MappedPage.Sound.released_otherWork holding.sound pageHeld
  have releasedSound := work.treeSound holding.sound
  have kept := run.framesKept releasedSound
  have leaves :
      ∀ vaddr level entry,
        LeafAt setup after.pgtbl vaddr level entry ↔
          LeafAt setup state.pgtbl vaddr level entry ∧
            ¬ page.Selects vaddr := by
    intro vaddr level entry
    rw [run.leafAt releasedSound]
    refine and_congr_left fun _ => ?_
    exact and_congr_left fun _ => work.entryAt holding.sound
  obtain ⟨apartFirst, apartLater⟩ := List.pairwise_cons.mp holding.apart
  refine
    { sound := run.treeSound releasedSound
      leaf := ?_
      others := ?_
      unmapped := fun other member =>
        holding.unmapped other (List.mem_cons_of_mem page member)
      apart := apartLater
      held := ?_
      distinct := fun isManaged =>
        (List.pairwise_cons.mp (holding.distinct isManaged)).2
      count := ?_ }
  · intro other member vaddr selects
    rw [leaves]
    exact ⟨holding.leaf other (List.mem_cons_of_mem page member) vaddr selects,
      fun first => apartFirst other member vaddr first selects⟩
  · intro vaddr outside level entry
    rw [leaves]
    by_cases first : page.Selects vaddr
    · have none := holding.unmapped page List.mem_cons_self vaddr first
      exact ⟨fun both => absurd first both.2,
        fun leaf => absurd leaf (none level entry)⟩
    · rw [and_iff_left first]
      apply holding.others vaddr
      intro other member
      rcases List.mem_cons.mp member with rfl | later
      · exact first
      · exact outside other later
  · rintro rfl other member
    have disjoint :=
      (List.pairwise_cons.mp (holding.distinct rfl)).1 other member
    have otherHeld :=
      (holding.held rfl other (List.mem_cons_of_mem page member)).of_returned
        disjoint
    exact otherHeld.of_kept kept (congrFun sameOrder _)
  · have total := holding.count
    rw [kept.count]
    cases managed with
    | true =>
        have grown :
            (page.released (!true) state).pgtbl.free.length =
              state.pgtbl.free.length + 2 ^ page.pageOrder := by
          rw [MappedPage.released, Bool.not_true, if_neg Bool.false_ne_true,
            VmState.returnCluster, List.length_append, length_cluster]
        simp only [framesOf, if_true, List.map_cons, List.sum_cons] at total ⊢
        rw [grown, work.tables]
        omega
    | false =>
        exact total

/-- Work on other pages leaves the pages as they are. -/
theorem otherWork
    {left : Nat}
    (holding : Holding setup before managed loose state pages)
    (work : OtherWork state.pgtbl after.pgtbl)
    (held :
      managed = true →
        ∀ page ∈ pages, ClusterHeld after page.frame page.pageOrder)
    (length :
      after.pgtbl.free.length + left = state.pgtbl.free.length + loose) :
    Holding setup before managed left after pages := by
  refine
    { sound := work.treeSound holding.sound
      leaf := ?_
      others := ?_
      unmapped := holding.unmapped
      apart := holding.apart
      held := held
      distinct := holding.distinct
      count := ?_ }
  · intro page member vaddr selects
    obtain ⟨found, isLeaf⟩ := holding.leaf page member vaddr selects
    exact ⟨(work.entryAt holding.sound).mpr found, isLeaf⟩
  · intro vaddr outside level entry
    rw [← holding.others vaddr outside level entry]
    exact and_congr_left fun _ => work.entryAt holding.sound
  · rw [work.tables]
    have total := holding.count
    omega

/-- Taking a cluster for the next page. -/
theorem take
    {pool : PagePool}
    {pfn order : Nat}
    (holding : Holding setup before managed 0 state pages)
    (taken : pgifGetFreePageCluster pool state order = some (pfn, after)) :
    Holding setup before managed (2 ^ order) after pages ∧
      ClusterHeld after pfn order ∧
      (managed = true →
        ∀ page ∈ pages,
          (cluster page.frame page.pageOrder).Disjoint (cluster pfn order)) := by
  obtain ⟨work, held, _, _, length, _⟩ :=
    pgifGetFreePageCluster_spec holding.sound taken
  have others :
      managed = true →
        ∀ page ∈ pages,
          ClusterHeld after page.frame page.pageOrder ∧
            (cluster page.frame page.pageOrder).Disjoint (cluster pfn order) :=
    fun isManaged page member =>
      (holding.held isManaged page member).of_taken holding.sound taken
  exact
    ⟨holding.otherWork work
        (fun isManaged page member => (others isManaged page member).1) length,
      held, fun isManaged page member => (others isManaged page member).2⟩

/-- Looking the page table up leaves the pages as they are. -/
theorem visited
    (holding : Holding setup before managed loose state pages)
    (visited : List (Nat × Bool)) :
    Holding setup before managed loose
      { state with pgtbl := { state.pgtbl with visited := visited } } pages :=
  { sound := holding.sound.of_visited visited
    leaf := holding.leaf
    others := holding.others
    unmapped := holding.unmapped
    apart := holding.apart
    held := fun isManaged page member =>
      (holding.held isManaged page member).of_kept
        (FramesKept.of_visited _ visited) rfl
    distinct := holding.distinct
    count := holding.count }

/-- The next page to map lies apart from the pages that are held. -/
theorem apart_next
    (holding : Holding setup before managed loose state pages)
    (noLarger :
      ∀ level < page.target, ∀ entry,
        ¬ LeafAt setup state.pgtbl page.vaddr level entry)
    (unused : ¬ EntryBusy setup state.pgtbl page.vaddr page.target)
    {vaddr : Nat}
    (selects : page.Selects vaddr) :
    (∀ level entry, ¬ LeafAt setup state.pgtbl vaddr level entry) ∧
      ∀ other ∈ pages, ¬ other.Selects vaddr := by
  have noLeaf :
      ∀ level entry, ¬ LeafAt setup state.pgtbl vaddr level entry := by
    intro level entry leaf
    rcases lt_or_ge level page.target with above | below
    · exact noLarger level above entry
        (leaf.of_sameEntry selects.symm (Nat.le_of_lt above))
    · have busy : EntryBusy setup state.pgtbl vaddr page.target := by
        obtain ⟨⟨reached, walk, holds⟩, valid, _⟩ := leaf
        rcases Nat.eq_or_lt_of_le below with same | deeper
        · exact same ▸ ⟨entry, ⟨reached, walk, holds⟩, valid⟩
        · exact holding.sound.entryBusy_of_deeper walk deeper
      exact unused (busy.of_sameEntry selects.symm)
  exact ⟨noLeaf, fun other member both =>
    noLeaf _ _ (holding.leaf other member vaddr both)⟩

/-- Mapping the next page adds it to the pages that are held. -/
theorem map
    {pgtbl : PgtblState}
    (holding :
      Holding setup before managed
        (if managed then 2 ^ page.pageOrder else 0) state pages)
    (wellFormed : page.Sound)
    (noLarger :
      ∀ level < page.target, ∀ entry,
        ¬ LeafAt setup state.pgtbl page.vaddr level entry)
    (held :
      managed = true →
        ClusterHeld state page.frame page.pageOrder ∧
          ∀ other ∈ pages,
            (cluster other.frame other.pageOrder).Disjoint
              (cluster page.frame page.pageOrder))
    (run :
      MapRun setup page.vaddr page.target page.pte 0 state.pgtbl (.ok ())
        pgtbl) :
    Holding setup before managed 0 { state with pgtbl := pgtbl }
      (pages ++ [page]) := by
  obtain ⟨valid, isLeaf⟩ := wellFormed.leaf
  have sound := holding.sound
  have mapped := run.pageMapped sound valid isLeaf
  have kept := run.framesKept sound
  have next :=
    fun {vaddr} (selects : page.Selects vaddr) =>
      holding.apart_next noLarger mapped.unused selects
  have leaves :
      ∀ {vaddr level entry},
        ¬ page.Selects vaddr →
          (LeafAt setup pgtbl vaddr level entry ↔
            LeafAt setup state.pgtbl vaddr level entry) := by
    intro vaddr level entry outside
    constructor
    · rintro ⟨found, entryValid, entryLeaf⟩
      exact ⟨(mapped.others outside entryValid (.inl entryLeaf)).mp found,
        entryValid, entryLeaf⟩
    · rintro ⟨found, entryValid, entryLeaf⟩
      exact ⟨(mapped.others outside entryValid (.inl entryLeaf)).mpr found,
        entryValid, entryLeaf⟩
  refine
    { sound := run.treeSound sound valid isLeaf
      leaf := ?_
      others := ?_
      unmapped := ?_
      apart := ?_
      held := ?_
      distinct := ?_
      count := ?_ }
  · intro other member vaddr selects
    rcases List.mem_append.mp member with earlier | isPage
    · refine (leaves fun both => ?_).mpr
        (holding.leaf other earlier vaddr selects)
      exact (next both).2 other earlier selects
    · obtain rfl := List.mem_singleton.mp isPage
      exact mapped.leaf selects
  · intro vaddr outside level entry
    rw [leaves (outside page (List.mem_append_right _ List.mem_cons_self))]
    exact holding.others vaddr
      (fun other member => outside other (List.mem_append_left _ member)) level
      entry
  · intro other member vaddr selects level entry leaf
    rcases List.mem_append.mp member with earlier | isPage
    · exact holding.unmapped other earlier vaddr selects level entry leaf
    · obtain rfl := List.mem_singleton.mp isPage
      obtain ⟨noLeaf, outside⟩ := next selects
      exact noLeaf level entry
        ((holding.others vaddr outside level entry).mpr leaf)
  · refine List.pairwise_append.mpr
      ⟨holding.apart, List.pairwise_singleton .., ?_⟩
    intro first firstMember second isPage vaddr selects both
    obtain rfl := List.mem_singleton.mp isPage
    exact (next both).2 first firstMember selects
  · intro isManaged other member
    rcases List.mem_append.mp member with earlier | isPage
    · exact (holding.held isManaged other earlier).of_kept kept rfl
    · obtain rfl := List.mem_singleton.mp isPage
      exact (held isManaged).1.of_kept kept rfl
  · intro isManaged
    refine List.pairwise_append.mpr
      ⟨holding.distinct isManaged, List.pairwise_singleton .., ?_⟩
    intro first firstMember second isPage
    obtain rfl := List.mem_singleton.mp isPage
    exact (held isManaged).2 first firstMember
  · have total := holding.count
    have count := kept.count
    cases managed with
    | true =>
        simp only [framesOf, if_true, List.map_append, List.map_cons,
          List.map_nil, List.sum_append, List.sum_cons, List.sum_nil]
          at total ⊢
        omega
    | false =>
        simp only [framesOf, Bool.false_eq_true, if_false] at total ⊢
        omega

end Holding

/-! ## The tables of a range that is rolled back -/

/--
Unmapping the pages again frees the tables that mapping them took: the tables
were present and have kept their entries, or nothing was mapped, and all pages
lie in one lowest table.
-/
inductive TablesHeld
    (setup : PgtblSetup)
    (before : PgtblState)
    (state : PgtblState)
    (pages : List MappedPage) : Prop where
  | present
      (walks :
        ∀ page ∈ pages, ∃ table,
          tableAt setup before page.vaddr page.target = some table)
      (kept : EntriesKept before state)
  | single
      (unmapped :
        ∀ vaddr, setup.OwnAddr vaddr →
          ∀ level entry, ¬ LeafAt setup before vaddr level entry)
      (together :
        ∀ first ∈ pages, ∀ second ∈ pages,
          first.target = second.target ∧
            ∀ depth < first.target,
              digit first.vaddr depth = digit second.vaddr depth)

/-- A table that was there before the call keeps another entry. -/
theorem Holding.shared_of_present
    {table : Nat}
    (holding : Holding setup before managed loose state pages)
    (member : page ∈ pages)
    (own : setup.OwnAddr page.vaddr)
    (wellFormed : page.Sound)
    (tidy : Tidy setup before)
    (sound : TreeSound setup before)
    (kept : EntriesKept before state.pgtbl)
    (walk :
      tableAt setup before page.vaddr page.target = some table) :
    tableAt setup state.pgtbl page.vaddr page.target = some table ∧
      pteIsValid
          (before.mem table (digit page.vaddr page.target)) = false ∧
      (page.target ≠ 0 →
        ((validSlots setup state.pgtbl table).erase
          (digit page.vaddr page.target)).Nonempty) := by
  have stateWalk := kept.tableAt walk
  obtain ⟨⟨leafTable, leafWalk, holds⟩, _, isLeaf⟩ :=
    holding.leaf page member page.vaddr page.selects_self
  rw [stateWalk] at leafWalk
  cases leafWalk
  have slots := (kept table (sound.mem_tables walk)).2
  have unused :
      pteIsValid
          (before.mem table (digit page.vaddr page.target)) = false := by
    by_contra used
    rw [Bool.not_eq_false] at used
    have same := (slots _ used).symm.trans holds
    exact holding.unmapped page member page.vaddr page.selects_self _ _
      ⟨⟨table, walk, same⟩, wellFormed.leaf⟩
  refine ⟨stateWalk, unused, fun below => ?_⟩
  have notBase : table ≠ setup.base := by
    rintro rfl
    exact below (tableAt_base sound walk)
  obtain ⟨slot, used⟩ :=
    ((tidy.used (Reached.of_walk own walk)).resolve_left
      notBase).resolve_left nofun
  obtain ⟨bound, ownSlot, valid⟩ := mem_validSlots.mp used
  refine ⟨slot, Finset.mem_erase.mpr ⟨?_, ?_⟩⟩
  · rintro rfl
    rw [unused] at valid
    cases valid
  · rw [mem_validSlots, slots slot valid]
    exact ⟨bound, ownSlot, valid⟩

/-- The entry of a page that is held is one of its table's. -/
theorem Holding.slot_mem
    {table : Nat}
    (holding : Holding setup before managed loose state pages)
    (member : page ∈ pages)
    (own : setup.OwnAddr page.vaddr)
    (walk :
      tableAt setup state.pgtbl page.vaddr page.target = some table) :
    digit page.vaddr page.target ∈ validSlots setup state.pgtbl table := by
  obtain ⟨⟨leafTable, leafWalk, holds⟩, valid, _⟩ :=
    holding.leaf page member page.vaddr page.selects_self
  rw [walk] at leafWalk
  cases leafWalk
  exact mem_validSlots.mpr
    ⟨digit_lt .., holding.sound.ownSlot own walk, holds ▸ valid⟩

/-- When one page is all that is mapped, its way holds nothing else. -/
theorem Holding.onlyWay
    (holding : Holding setup before managed loose state [page])
    (own : setup.OwnAddr page.vaddr)
    (tidy : Tidy setup state.pgtbl)
    (unmapped :
      ∀ vaddr, setup.OwnAddr vaddr →
        ∀ level entry, ¬ LeafAt setup before vaddr level entry) :
    OnlyWay setup state.pgtbl page.vaddr page.target := by
  have sound := holding.sound
  have leaf := holding.leaf page List.mem_cons_self page.vaddr page.selects_self
  -- every leaf of an own address is the leaf of the page
  have onlyPage :
      ∀ {vaddr level entry},
        setup.OwnAddr vaddr →
        LeafAt setup state.pgtbl vaddr level entry →
        page.Selects vaddr := by
    intro vaddr level entry vaddrOwn vaddrLeaf
    by_contra outside
    refine unmapped vaddr vaddrOwn level entry
      ((holding.others vaddr ?_ level entry).mp vaddrLeaf)
    intro other member
    obtain rfl := List.mem_singleton.mp member
    exact outside
  intro level bound table walk
  ext slot
  rw [Finset.mem_singleton]
  constructor
  · intro used
    obtain ⟨slotBound, ownSlot, valid⟩ := mem_validSlots.mp used
    have depthBound := sound.depth_lt walk
    have levelNr : pgtblLvlNr = 3 := rfl
    -- an address on the same way that selects this entry
    obtain ⟨address, digits⟩ :=
      exists_digits
        (fun depth => if depth = level then slot else digit page.vaddr depth)
        (by
          intro depth
          split_ifs
          · exact slotBound
          · exact digit_lt ..)
    have same :
        ∀ depth < level, digit address depth = digit page.vaddr depth := by
      intro depth depthBound'
      rw [digits depth (by omega), if_neg (by omega)]
    have here : digit address level = slot := by
      rw [digits level (by omega), if_pos rfl]
    have addressWalk : tableAt setup state.pgtbl address level = some table :=
      (RadixWalk.walkTo_congr same).trans walk
    have addressOwn : setup.OwnAddr address := by
      rcases Nat.eq_zero_or_pos level with rfl | below
      · obtain rfl := Option.some.inj walk
        rw [PgtblSetup.OwnAddr, here]
        by_contra inherited
        exact ownSlot ⟨rfl, Bool.not_eq_false _ ▸ inherited⟩
      · rw [PgtblSetup.OwnAddr, same 0 below]
        exact own
    rw [← here] at valid ⊢
    cases isLeaf : pteIsLeaf (state.pgtbl.mem table (digit address level)) with
    | true =>
        exact onlyPage addressOwn ⟨⟨table, addressWalk, rfl⟩, valid, isLeaf⟩
          level bound
    | false =>
        have next := sound.tableAt_succ addressWalk
        rw [childOf_eq_some.mpr ⟨valid, isLeaf, rfl⟩] at next
        obtain ⟨lower, lowerLevel, entry, lowerOwn, lowerSame, _, lowerLeaf⟩ :=
          tidy.exists_leaf sound addressOwn (Nat.succ_pos level) next
        rw [← lowerSame level (Nat.lt_succ_self level)]
        exact onlyPage lowerOwn lowerLeaf level bound
  · rintro rfl
    have busy : EntryBusy setup state.pgtbl page.vaddr level := by
      obtain ⟨⟨reached, leafWalk, holds⟩, valid, _⟩ := leaf
      rcases Nat.eq_or_lt_of_le bound with rfl | above
      · exact ⟨_, ⟨reached, leafWalk, holds⟩, valid⟩
      · exact sound.entryBusy_of_deeper leafWalk above
    obtain ⟨entry, ⟨reached, busyWalk, holds⟩, valid⟩ := busy
    rw [walk] at busyWalk
    cases busyWalk
    exact mem_validSlots.mpr
      ⟨digit_lt .., sound.ownSlot own walk, holds ▸ valid⟩

/-- Unmapping the first of the pages frees the tables that it empties. -/
theorem Holding.freesEmptied
    (holding : Holding setup before managed loose state (page :: pages))
    (own : ∀ other ∈ page :: pages, setup.OwnAddr other.vaddr)
    (wellFormed : page.Sound)
    (beforeTidy : Tidy setup before)
    (beforeSound : TreeSound setup before)
    (tidy : Tidy setup state.pgtbl)
    (ready : TablesHeld setup before state.pgtbl (page :: pages)) :
    FreesEmptied setup state.pgtbl page.vaddr := by
  have pageOwn := own page List.mem_cons_self
  intro level entry leaf
  obtain ⟨rfl, _⟩ :=
    holding.sound.leafAt_unique leaf
      (holding.leaf page List.mem_cons_self page.vaddr page.selects_self)
  cases ready with
  | present walks kept =>
      by_cases top : page.target = 0
      · exact .inl top
      · obtain ⟨table, walk⟩ := walks page List.mem_cons_self
        obtain ⟨stateWalk, _, shared⟩ :=
          holding.shared_of_present List.mem_cons_self pageOwn wellFormed
            beforeTidy beforeSound kept walk
        obtain ⟨slot, other⟩ := shared top
        obtain ⟨different, used⟩ := Finset.mem_erase.mp other
        exact .inr (.inl ⟨table, stateWalk,
          Finset.one_lt_card_iff.mpr
            ⟨slot, _, used,
              holding.slot_mem List.mem_cons_self pageOwn stateWalk,
              different⟩⟩)
  | single unmapped together =>
      cases pages with
      | nil =>
          exact .inr (.inr (holding.onlyWay pageOwn tidy unmapped))
      | cons second pages =>
          -- the next page has another entry of the same table
          have secondMember : second ∈ page :: second :: pages :=
            List.mem_cons_of_mem page List.mem_cons_self
          obtain ⟨sameTarget, digits⟩ :=
            together page List.mem_cons_self second secondMember
          obtain ⟨⟨table, walk, _⟩, _⟩ :=
            holding.leaf page List.mem_cons_self page.vaddr page.selects_self
          have secondWalk :
              tableAt setup state.pgtbl second.vaddr second.target =
                some table := by
            rw [← sameTarget]
            exact (RadixWalk.walkTo_congr digits).symm.trans walk
          have apart :=
            (List.pairwise_cons.mp holding.apart).1 second List.mem_cons_self
          have different :
              digit page.vaddr page.target ≠
                digit second.vaddr second.target := by
            intro sameSlot
            apply apart page.vaddr page.selects_self
            intro depth bound
            rw [← sameTarget] at bound
            rcases Nat.eq_or_lt_of_le bound with rfl | above
            · rw [sameSlot, ← sameTarget]
            · exact digits depth above
          exact .inr (.inl ⟨table, walk,
            Finset.one_lt_card_iff.mpr
              ⟨_, _, holding.slot_mem List.mem_cons_self pageOwn walk,
                holding.slot_mem secondMember (own second secondMember)
                  secondWalk, different⟩⟩)

/-- What unmapping the first of the pages does to the page table. -/
theorem Holding.unmap_run
    (holding : Holding setup before managed loose state (page :: pages))
    (wellFormed : page.Sound)
    (own : setup.OwnAddr page.vaddr)
    (removed : unmapPage setup state (!managed) page.vaddr = some after) :
    ∃ middle,
      OtherWork state.pgtbl middle ∧
        ClearRun setup page.vaddr page.target none middle after.pgtbl := by
  have pageHeld :
      (!managed) = false → ClusterHeld state page.frame page.pageOrder := by
    intro isManaged
    exact holding.held (by simpa using isManaged) page List.mem_cons_self
  have leaf :=
    holding.leaf page List.mem_cons_self page.vaddr page.selects_self
  exact ⟨_, MappedPage.Sound.released_otherWork holding.sound pageHeld,
    (wellFormed.unmapPage_run holding.sound leaf pageHeld own removed).1⟩

/-- Unmapping the first of the pages keeps the page table tidy. -/
theorem Holding.unmap_tidy
    (holding : Holding setup before managed loose state (page :: pages))
    (own : ∀ other ∈ page :: pages, setup.OwnAddr other.vaddr)
    (wellFormed : page.Sound)
    (beforeTidy : Tidy setup before)
    (beforeSound : TreeSound setup before)
    (tidy : Tidy setup state.pgtbl)
    (ready : TablesHeld setup before state.pgtbl (page :: pages))
    (removed : unmapPage setup state (!managed) page.vaddr = some after) :
    Tidy setup after.pgtbl ∧ TablesHeld setup before after.pgtbl pages := by
  have pageOwn := own page List.mem_cons_self
  have sound := holding.sound
  obtain ⟨middle, work, run⟩ := holding.unmap_run wellFormed pageOwn removed
  have frees :=
    holding.freesEmptied own wellFormed beforeTidy beforeSound tidy ready
  have leaf :=
    holding.leaf page List.mem_cons_self page.vaddr page.selects_self
  have middleSound := work.treeSound sound
  refine ⟨?_, ?_⟩
  · exact run.tidy middleSound pageOwn
      ⟨(work.entryAt sound).mpr leaf.1, leaf.2⟩ (frees.otherWork sound work)
      (tidy.otherWork sound work)
  · have later : ∀ {other}, other ∈ pages → other ∈ page :: pages :=
      List.mem_cons_of_mem page
    cases ready with
    | single unmapped together =>
        exact .single unmapped fun first firstMember second secondMember =>
          together first (later firstMember) second (later secondMember)
    | present walks kept =>
        refine .present (fun other member => walks other (later member)) ?_
        obtain ⟨table, walk⟩ := walks page List.mem_cons_self
        obtain ⟨stateWalk, unused, shared⟩ :=
          holding.shared_of_present List.mem_cons_self pageOwn wellFormed
            beforeTidy beforeSound kept walk
        have middleWalk :
            tableAt setup middle page.vaddr page.target = some table :=
          (tableAt_congr work.childIn _ _).trans stateWalk
        have cleared :
            after.pgtbl =
              middle.clearEntry table (digit page.vaddr page.target) := by
          by_cases top : page.target = 0
          · exact run.eq_of_top top middleWalk
          · refine run.eq_of_shared middleWalk ?_ rfl
            rw [work.validSlots (sound.mem_tables stateWalk)]
            exact shared top
        intro other known
        obtain ⟨stillKnown, same⟩ := kept other known
        rw [cleared]
        refine ⟨work.tables ▸ stillKnown, fun idx valid => ?_⟩
        rw [PgtblState.clearEntry, mem_setEntry_of_ne,
          work.mem other stillKnown, same idx valid]
        rintro ⟨rfl, rfl⟩
        rw [unused] at valid
        cases valid

/-! ## The whole rollback -/

/-- Pages that follow one another from an address on. -/
def Consecutive : Nat → List MappedPage → Nat → Prop
  | start, [], stop => start = stop
  | start, page :: pages, stop =>
      page.vaddr = start ∧
        Consecutive (start + targetSize page.target) pages stop

theorem Consecutive.le
    {start stop : Nat}
    (consecutive : Consecutive start pages stop) :
    start ≤ stop := by
  induction pages generalizing start with
  | nil =>
      exact Nat.le_of_eq consecutive
  | cons page pages inductionHypothesis =>
      exact (Nat.le_add_right _ _).trans
        (inductionHypothesis consecutive.2)

theorem Consecutive.append
    {start stop : Nat}
    {page : MappedPage}
    (consecutive : Consecutive start pages stop)
    (next : page.vaddr = stop) :
    Consecutive start (pages ++ [page]) (stop + targetSize page.target) := by
  induction pages generalizing start with
  | nil =>
      cases consecutive
      exact ⟨next, rfl⟩
  | cons first pages inductionHypothesis =>
      exact ⟨consecutive.1, inductionHypothesis consecutive.2⟩

theorem Consecutive.dvd
    {start stop : Nat}
    (consecutive : Consecutive start pages stop)
    (bound : ∀ page ∈ pages, page.target ≤ 2)
    (startAligned : pageSize ∣ start) :
    pageSize ∣ stop := by
  induction pages generalizing start with
  | nil =>
      exact consecutive ▸ startAligned
  | cons page pages inductionHypothesis =>
      exact inductionHypothesis consecutive.2
        (fun other member => bound other (List.mem_cons_of_mem page member))
        (Nat.dvd_add startAligned
          (pageSize_dvd_targetSize (bound page List.mem_cons_self)))

/-- The rollback leaves no page, and the page table as tidy as it was. -/
theorem Holding.rollback
    {flags stop start rounds mapFlags mapPgsize : Nat}
    {result : Except Errno Unit}
    (holding : Holding setup before managed loose state pages)
    (consecutive : Consecutive start pages stop)
    (own : ∀ page ∈ pages, setup.OwnAddr page.vaddr)
    (wellFormed : ∀ page ∈ pages, page.Sound)
    (asked : (flags &&& vmFlagsUnmanaged != 0) = !managed)
    (unmapped :
      vmUnmapLoop setup flags true stop rounds mapFlags mapPgsize start state =
        some (result, after)) :
    Holding setup before managed loose after [] ∧
      (Tidy setup before → TreeSound setup before →
        Tidy setup state.pgtbl → TablesHeld setup before state.pgtbl pages →
        Tidy setup after.pgtbl) := by
  induction pages generalizing start rounds mapFlags mapPgsize state with
  | nil =>
      cases consecutive
      cases rounds with
      | zero =>
          cases unmapped
      | succ rounds =>
          rw [vmUnmapLoop, if_neg (lt_irrefl _)] at unmapped
          cases unmapped
          exact ⟨holding, fun _ _ tidy _ => tidy⟩
  | cons page pages inductionHypothesis =>
      obtain ⟨rfl, later⟩ := consecutive
      have pageSound := wellFormed page List.mem_cons_self
      have pageOwn := own page List.mem_cons_self
      have more : page.vaddr < stop :=
        lt_of_lt_of_le (Nat.lt_add_of_pos_right (targetSize_pos _)) later.le
      cases rounds with
      | zero =>
          cases unmapped
      | succ rounds =>
          obtain ⟨middle, nextFlags, removed, rest⟩ :=
            pageSound.vmUnmapLoop_round holding.sound
              (holding.leaf page List.mem_cons_self page.vaddr
                page.selects_self) more unmapped
          rw [asked] at removed
          obtain ⟨done, tidied⟩ :=
            inductionHypothesis (holding.unmap pageSound pageOwn removed) later
              (fun other member => own other (List.mem_cons_of_mem page member))
              (fun other member =>
                wellFormed other (List.mem_cons_of_mem page member)) rest
          refine ⟨done, fun beforeTidy beforeSound tidy ready => ?_⟩
          obtain ⟨middleTidy, middleReady⟩ :=
            holding.unmap_tidy own pageSound beforeTidy beforeSound tidy ready
              removed
          exact tidied beforeTidy beforeSound middleTidy middleReady

/-! ## A range that is mapped up to an address -/

/-- The part of the page table that the rollback rests on. -/
structure Grown (setup : PgtblSetup) (before state : PgtblState) : Prop where
  tidy : Tidy setup state
  entries : EntriesKept before state

namespace Grown

variable {middle final : PgtblState}

theorem otherWork
    (grown : Grown setup before middle)
    (sound : TreeSound setup middle)
    (work : OtherWork middle final) :
    Grown setup before final := by
  refine
    { tidy := grown.tidy.otherWork sound work
      entries := grown.entries.trans fun table known =>
        ⟨work.tables ▸ known, fun idx _ => ?_⟩ }
  rw [work.mem table known]

theorem mapRun
    {page : MappedPage}
    (grown : Grown setup before middle)
    (sound : TreeSound setup middle)
    (wellFormed : page.Sound)
    (own : setup.OwnAddr page.vaddr)
    (run :
      MapRun setup page.vaddr page.target page.pte 0 middle (.ok ()) final) :
    Grown setup before final :=
  { tidy :=
      run.tidy sound own wellFormed.leaf.1 wellFormed.leaf.2 nofun rfl
        grown.tidy.base
    entries := grown.entries.trans (run.entriesKept sound) }

end Grown

/-- Where a call stands: pages that it has mapped below an address. -/
structure MappedTo
    (setup : PgtblSetup)
    (before : PgtblState)
    (managed : Bool)
    (staVaddr loose : Nat)
    (state : VmState)
    (pages : List MappedPage)
    (mapVaddr : Nat) : Prop where
  holding : Holding setup before managed loose state pages
  grown : Grown setup before state.pgtbl
  start : staVaddr ≤ mapVaddr
  inSpace : mapVaddr < addressSpace
  bounds :
    ∀ page ∈ pages,
      staVaddr ≤ page.vaddr ∧ page.vaddr + targetSize page.target ≤ mapVaddr
  wellFormed : ∀ page ∈ pages, page.Sound
  own : ∀ page ∈ pages, setup.OwnAddr page.vaddr
  translated : ∀ page ∈ pages, InSv39 page.vaddr

namespace MappedTo

variable {staVaddr mapVaddr target : Nat}

/-- Before the first page nothing is mapped. -/
theorem nil
    (sound : TreeSound setup state.pgtbl)
    (tidy : Tidy setup state.pgtbl)
    (inSpace : staVaddr < addressSpace) :
    MappedTo setup state.pgtbl managed staVaddr 0 state [] staVaddr :=
  { holding := Holding.nil sound
    grown :=
      { tidy := tidy
        entries := EntriesKept.refl _ }
    start := le_rfl
    inSpace := inSpace
    bounds := fun _ impossible => nomatch impossible
    wellFormed := fun _ impossible => nomatch impossible
    own := fun _ impossible => nomatch impossible
    translated := fun _ impossible => nomatch impossible }

/-- Work on other pages maps nothing. -/
theorem otherWork
    {left : Nat}
    (mapped :
      MappedTo setup before managed staVaddr loose state pages mapVaddr)
    (work : OtherWork state.pgtbl after.pgtbl)
    (holding : Holding setup before managed left after pages) :
    MappedTo setup before managed staVaddr left after pages mapVaddr :=
  { holding := holding
    grown := mapped.grown.otherWork mapped.holding.sound work
    start := mapped.start
    inSpace := mapped.inSpace
    bounds := mapped.bounds
    wellFormed := mapped.wellFormed
    own := mapped.own
    translated := mapped.translated }

/-- Taking a cluster for the next page maps nothing. -/
theorem take
    {pool : PagePool}
    {pfn order : Nat}
    (mapped : MappedTo setup before managed staVaddr 0 state pages mapVaddr)
    (taken : pgifGetFreePageCluster pool state order = some (pfn, after)) :
    MappedTo setup before managed staVaddr (2 ^ order) after pages mapVaddr :=
  mapped.otherWork
    (pgifGetFreePageCluster_spec mapped.holding.sound taken).1
    (mapped.holding.take taken).1

/-- Returning the cluster that was taken for the next page. -/
theorem returned
    {pfn order : Nat}
    (mapped :
      MappedTo setup before managed staVaddr (2 ^ order) state pages mapVaddr)
    (held : ClusterHeld state pfn order)
    (disjoint :
      managed = true →
        ∀ page ∈ pages,
          (cluster page.frame page.pageOrder).Disjoint (cluster pfn order)) :
    MappedTo setup before managed staVaddr 0 (state.returnCluster pfn order)
      pages mapVaddr := by
  have work := held.otherWork mapped.holding.sound
  refine mapped.otherWork work
    (mapped.holding.otherWork work (fun isManaged page member => ?_) ?_)
  · exact (mapped.holding.held isManaged page member).of_returned
      (List.disjoint_comm.mp (disjoint isManaged page member))
  · rw [VmState.returnCluster, List.length_append, length_cluster]
    rfl

/-- Looking the page table up maps nothing. -/
theorem visited
    (mapped :
      MappedTo setup before managed staVaddr loose state pages mapVaddr)
    (visited : List (Nat × Bool)) :
    MappedTo setup before managed staVaddr loose
      { state with pgtbl := { state.pgtbl with visited := visited } } pages
      mapVaddr :=
  { holding := mapped.holding.visited visited
    grown :=
      { tidy := mapped.grown.tidy.of_visited visited
        entries := mapped.grown.entries }
    start := mapped.start
    inSpace := mapped.inSpace
    bounds := mapped.bounds
    wellFormed := mapped.wellFormed
    own := mapped.own
    translated := mapped.translated }

/-- A page that is left alone is passed over. -/
theorem skip
    {nextVaddr : Nat}
    (mapped :
      MappedTo setup before managed staVaddr loose state pages mapVaddr)
    (later : mapVaddr ≤ nextVaddr)
    (inSpace : nextVaddr < addressSpace) :
    MappedTo setup before managed staVaddr loose state pages nextVaddr :=
  { mapped with
    start := mapped.start.trans later
    inSpace := inSpace
    bounds := fun page member =>
      ⟨(mapped.bounds page member).1,
        (mapped.bounds page member).2.trans later⟩ }

/-- Mapping the next page moves the call behind it. -/
theorem map
    {page : MappedPage}
    {pgtbl : PgtblState}
    (mapped :
      MappedTo setup before managed staVaddr
        (if managed then 2 ^ page.pageOrder else 0) state pages page.vaddr)
    (wellFormed : page.Sound)
    (own : setup.OwnAddr page.vaddr)
    (inSv39 : InSv39 page.vaddr)
    (noLarger :
      ∀ level < page.target, ∀ entry,
        ¬ LeafAt setup state.pgtbl page.vaddr level entry)
    (held :
      managed = true →
        ClusterHeld state page.frame page.pageOrder ∧
          ∀ other ∈ pages,
            (cluster other.frame other.pageOrder).Disjoint
              (cluster page.frame page.pageOrder))
    (run :
      MapRun setup page.vaddr page.target page.pte 0 state.pgtbl (.ok ())
        pgtbl) :
    MappedTo setup before managed staVaddr 0 { state with pgtbl := pgtbl }
      (pages ++ [page]) (page.vaddr + targetSize page.target) := by
  have forAll :
      ∀ {property : MappedPage → Prop},
        (∀ other ∈ pages, property other) → property page →
          ∀ other ∈ pages ++ [page], property other := by
    intro property earlier last other member
    rcases List.mem_append.mp member with known | isPage
    · exact earlier other known
    · exact List.mem_singleton.mp isPage ▸ last
  exact
    { holding := mapped.holding.map wellFormed noLarger held run
      grown := mapped.grown.mapRun mapped.holding.sound wellFormed own run
      start := mapped.start.trans (Nat.le_add_right _ _)
      inSpace := wellFormed.inSpace
      bounds :=
        forAll
          (fun other member =>
            ⟨(mapped.bounds other member).1,
              (mapped.bounds other member).2.trans (Nat.le_add_right _ _)⟩)
          ⟨mapped.start, le_rfl⟩
      wellFormed := forAll mapped.wellFormed wellFormed
      own := forAll mapped.own own
      translated := forAll mapped.translated inSv39 }

/-- A page behind the mapped pages has no address in common with them. -/
theorem apart
    (mapped :
      MappedTo setup before managed staVaddr loose state pages mapVaddr)
    (targetBound : target ≤ 2)
    (isAligned : targetSize target ∣ mapVaddr)
    (inSv39 : InSv39 mapVaddr) :
    ∀ page ∈ pages, ∀ vaddr, SameEntry target vaddr mapVaddr →
      ¬ page.Selects vaddr := by
  intro page member vaddr here selects
  obtain ⟨_, upper⟩ := mapped.bounds page member
  have pageBound := (mapped.wellFormed page member).targetBound
  have pageIn := mapped.translated page member
  have pagePositive := targetSize_pos page.target
  rcases le_total page.target target with larger | smaller
  · -- the earlier page is the larger one, and ends before this page
    have same : SameEntry page.target mapVaddr page.vaddr := by
      intro depth bound
      exact (here depth (bound.trans larger)).symm.trans (selects depth bound)
    rw [sameEntry_iff_of_inSv39 pageBound inSv39 pageIn] at same
    have later := Nat.div_le_div_right (c := targetSize page.target) upper
    rw [Nat.add_div_right _ pagePositive] at later
    omega
  · -- this page is the larger one, and starts behind the earlier page
    have same : SameEntry target page.vaddr mapVaddr := by
      intro depth bound
      exact (selects depth (bound.trans smaller)).symm.trans (here depth bound)
    rw [sameEntry_iff_of_inSv39 targetBound pageIn inSv39] at same
    obtain ⟨number, rfl⟩ := isAligned
    rw [Nat.mul_div_cancel_left _ (targetSize_pos target)] at same
    have before := Nat.mul_div_le page.vaddr (targetSize target)
    rw [same] at before
    omega

/-- A page below no larger leaf stays so while the pages before it are mapped. -/
theorem noLarger
    (mapped :
      MappedTo setup before managed staVaddr loose state pages mapVaddr)
    (apart :
      ∀ page ∈ pages, ∀ vaddr, SameEntry target vaddr mapVaddr →
        ¬ page.Selects vaddr)
    (noLarger :
      ∀ level < target, ∀ entry, ¬ LeafAt setup before mapVaddr level entry) :
    ∀ level < target, ∀ entry,
      ¬ LeafAt setup state.pgtbl mapVaddr level entry := by
  intro level above entry leaf
  refine noLarger level above entry
    ((mapped.holding.others mapVaddr ?_ level entry).mp leaf)
  exact fun page member => apart page member mapVaddr fun _ _ => rfl

/-- An entry in use behind the mapped pages was in use before the call. -/
theorem busy_before
    (mapped :
      MappedTo setup before managed staVaddr loose state pages mapVaddr)
    (own : setup.OwnAddr mapVaddr)
    (apart :
      ∀ page ∈ pages, ∀ vaddr, SameEntry target vaddr mapVaddr →
        ¬ page.Selects vaddr)
    (sound : TreeSound setup before)
    (busy : EntryBusy setup state.pgtbl mapVaddr target) :
    EntryBusy setup before mapVaddr target := by
  have stateSound := mapped.holding.sound
  obtain ⟨entry, ⟨table, walk, holds⟩, valid⟩ := busy
  cases isLeaf : pteIsLeaf entry with
  | true =>
      have leaf : LeafAt setup state.pgtbl mapVaddr target entry :=
        ⟨⟨table, walk, holds⟩, valid, isLeaf⟩
      obtain ⟨found, beforeValid, _⟩ :=
        (mapped.holding.others mapVaddr
          (fun page member => apart page member mapVaddr fun _ _ => rfl) target
          entry).mp leaf
      exact ⟨entry, found, beforeValid⟩
  | false =>
      -- a leaf below the entry was there before
      have below := stateSound.tableAt_succ walk
      rw [holds, childOf_eq_some.mpr ⟨valid, isLeaf, rfl⟩] at below
      obtain ⟨address, level, lower, _, digits, deep, leaf⟩ :=
        mapped.grown.tidy.exists_leaf stateSound own (Nat.succ_pos target)
          below
      have same : SameEntry target address mapVaddr :=
        fun earlier bound => digits earlier (Nat.lt_succ_of_le bound)
      obtain ⟨⟨reached, beforeWalk, _⟩, _⟩ :=
        (mapped.holding.others address
          (fun page member => apart page member address same) level
          lower).mp leaf
      exact (sound.entryBusy_of_deeper beforeWalk deep).of_sameEntry same.symm

/-- The length of the mapped range, in 64-bit words. -/
theorem length_eq
    (mapped :
      MappedTo setup before managed staVaddr loose state pages mapVaddr) :
    (mapVaddr + (addressSpace - staVaddr)) % addressSpace =
      mapVaddr - staVaddr := by
  have start := mapped.start
  have inSpace := mapped.inSpace
  rw [show addressSpace = 2 ^ 64 from rfl] at inSpace ⊢
  omega

/-- The rollback of the pages that were mapped, and what it leaves. -/
theorem rolledBack
    {locals : UnmapLocals}
    {flags rounds : Nat}
    {result : Except Errno Unit}
    (mapped :
      MappedTo setup before managed staVaddr loose state pages mapVaddr)
    (consecutive : Consecutive staVaddr pages mapVaddr)
    (staAligned : pageSize ∣ staVaddr)
    (asked : (flags &&& vmFlagsUnmanaged != 0) = !managed)
    (ready : TablesHeld setup before state.pgtbl pages)
    (tidy : Tidy setup before)
    (sound : TreeSound setup before)
    (kernelNodup : setup.kernelTables.Nodup)
    (unmapped :
      vmUnmapCommon setup locals rounds state staVaddr flags
        (mapVaddr - staVaddr) true = some (result, after)) :
    (∀ vaddr,
        halPgtblExtract setup after.pgtbl.mem vaddr =
          halPgtblExtract setup before.mem vaddr) ∧
      after.pgtbl.free.length + loose = before.free.length := by
  have start := mapped.start
  have inSpace := mapped.inSpace
  have mapAligned :=
    consecutive.dvd
      (fun page member => (mapped.wellFormed page member).targetBound)
      staAligned
  have size : pageSize = 4096 := rfl
  have space : addressSpace = 2 ^ 64 := rfl
  have finish :
      pageRoundup ((staVaddr + (mapVaddr - staVaddr)) % addressSpace) =
        mapVaddr := by
    rw [size] at mapAligned
    rw [Nat.add_sub_cancel' start, Nat.mod_eq_of_lt inSpace, pageRoundup,
      Nat.mod_eq_of_lt (by rw [space] at inSpace ⊢; omega), truncateAlign, size]
    omega
  have begin' : truncateAlign staVaddr pageSize = staVaddr :=
    Nat.div_mul_cancel staAligned
  rw [vmUnmapCommon, finish, begin'] at unmapped
  obtain ⟨done, tidied⟩ :=
    mapped.holding.rollback consecutive mapped.own mapped.wellFormed
      asked unmapped
  exact ⟨done.extract_eq sound,
    done.free_length (tidied tidy sound mapped.grown.tidy ready) tidy sound
      kernelNodup⟩

end MappedTo

end RiscvWorkshop.Vm
