import Mathlib
import RiscvWorkshop.PageTableFailure
import RiscvWorkshop.PageTableFrames

namespace RiscvWorkshop.Pgtbl

/-!
# Removing a range of whole pages

The remover goes on at every table that the page frame database knows, so on a
range of mapped pages the loop of `hal_pgtbl_remove` reaches the end.  Each
round takes the leaves of one entry away and drops one use count.
-/

variable {setup : PgtblSetup}
variable {initial state after : PgtblState}
variable {actions : List PgtblAction}
variable {vaddr depth table : Nat}

/-! ## The remover does not stop -/

/-- The walk to a leaf passes tables and ends with those on the way. -/
theorem collectTables_of_leafAt
    {lvl level entry : Nat}
    (sound : TreeSound setup state)
    (leaf : LeafAt setup state vaddr level entry)
    (walk : tableAt setup state vaddr depth = some table)
    (levels : depth + lvl = pgtblLvlNr)
    (above : depth ≤ level) :
    collectTables state.mem vaddr lvl table
        (tablesTo setup state vaddr depth) =
      some (tablesTo setup state vaddr (level + 1)) := by
  have levelNr : pgtblLvlNr = 3 := rfl
  induction lvl generalizing depth table with
  | zero =>
      have bound := sound.depth_lt walk
      omega
  | succ lvl inductionHypothesis =>
      have lvlDepth : lvl = 2 - depth := by omega
      have index : pgtblCalcIndexVal vaddr lvl = digit vaddr depth := by
        rw [digit, lvlDepth]
      have known : (lvl, table) :: tablesTo setup state vaddr depth =
          tablesTo setup state vaddr (depth + 1) := by
        rw [tablesTo_succ walk, lvlDepth]
      obtain ⟨⟨reached, leafWalk, holds⟩, valid, isLeaf⟩ := leaf
      simp only [collectTables, index, known]
      rcases Nat.eq_or_lt_of_le above with rfl | below
      · rw [walk] at leafWalk
        cases leafWalk
        simp only [holds, valid, isLeaf, if_true, or_true]
      · -- the entry refers to the next table on the way to the leaf
        obtain ⟨next, nextWalk⟩ :=
          TreeSound.tableAt_some_of_le leafWalk (Nat.succ_le_of_lt below)
        have refers := sound.tableAt_succ walk
        rw [nextWalk] at refers
        obtain ⟨nextValid, notLeaf, frame⟩ := childOf_eq_some.mp refers.symm
        have notLowest : ¬ lvl = 0 := by
          have bound := sound.depth_lt nextWalk
          omega
        simp only [nextValid, notLeaf, notLowest, frame, if_true, or_self,
          Bool.false_eq_true, if_false]
        exact inductionHypothesis nextWalk (by omega) (Nat.succ_le_of_lt below)

/-- Freeing an empty table that the database knows goes on. -/
theorem freeLowTable_isSome
    {low : Nat}
    (sound : TreeSound setup state)
    (known : setup.isPfnValid low = true)
    (member : low ∈ state.tables)
    (empty : validSlots setup state low = ∅) :
    freeLowTable setup state low = some (state.dropTable low) := by
  have counted := sound.counted low member
  rw [empty, Finset.card_empty] at counted
  have last : state.usecnt low - 1 = 0 := by
    rw [counted]
    rfl
  have freed : ∃ after, freeLowTable setup state low = some after := by
    simp only [freeLowTable, known, if_true, decPageUseCount, last,
      lt_irrefl, if_false]
    exact ⟨_, rfl⟩
  obtain ⟨after, freed⟩ := freed
  rw [freed, freeLowTable_eq sound member empty freed]

namespace Clearable

variable {low : Option Nat}
variable {upper : List (Nat × Nat)}

/-- The loop upwards stops at a table that keeps an entry. -/
theorem clearTables_of_shared
    (clearable : Clearable setup state vaddr depth table low)
    (sound : TreeSound setup state)
    (known : TablesKnown setup state)
    (shared :
      ((validSlots setup state table).erase (digit vaddr depth)).Nonempty) :
    clearTables setup vaddr low.isNone ((2 - depth, table) :: upper) state =
      some (state.clearEntry table (digit vaddr depth)) := by
  have member := sound.mem_tables clearable.walk
  have index : pgtblCalcIndexVal vaddr (2 - depth) = digit vaddr depth := rfl
  have zero : ptePaddrToPpn 0 = 0 := by decide
  have count := clearable.usecnt_clearEntry sound
  have others := Finset.card_pos.mpr shared
  simp only [clearTables, index, zero, known table member, if_true,
    decPageUseCount_clear sound member clearable.used]
  rw [if_pos (by omega)]

/-- The loop upwards goes on behind a table that it has emptied. -/
theorem clearTables_of_emptied
    (clearable : Clearable setup state vaddr depth table low)
    (sound : TreeSound setup state)
    (known : TablesKnown setup state)
    (emptied :
      (validSlots setup state table).erase (digit vaddr depth) = ∅) :
    clearTables setup vaddr low.isNone ((2 - depth, table) :: upper) state =
      clearTables setup vaddr false upper
        ((state.clearEntry table (digit vaddr depth)).release low) := by
  have member := sound.mem_tables clearable.walk
  have index : pgtblCalcIndexVal vaddr (2 - depth) = digit vaddr depth := rfl
  have zero : ptePaddrToPpn 0 = 0 := by decide
  have count := clearable.usecnt_clearEntry sound
  rw [emptied, Finset.card_empty] at count
  simp only [clearTables, index, zero, known table member, if_true,
    decPageUseCount_clear sound member clearable.used]
  rw [if_neg (by omega)]
  cases isLow : low with
  | none =>
      rfl
  | some below =>
      obtain ⟨belowMember, _, _, _, empty, _⟩ :=
        clearable.low_facts sound isLow
      obtain ⟨_, _, frame⟩ :=
        childOf_eq_some.mp (clearable.refers.trans isLow)
      have freed :=
        freeLowTable_isSome (clearable.clearEntry_sound sound)
          (known below belowMember) belowMember empty
      rw [frame, freed]
      rfl

theorem tables_release
    (clearable : Clearable setup state vaddr depth table low) :
    ((state.clearEntry table (digit vaddr depth)).release low).tables ⊆
      state.tables := by
  cases low with
  | none =>
      exact List.Subset.refl _
  | some below =>
      exact List.erase_subset

end Clearable

/-- The loop upwards ends. -/
theorem clearTables_isSome
    {low : Option Nat}
    (sound : TreeSound setup state)
    (known : TablesKnown setup state)
    (own : setup.OwnAddr vaddr)
    (clearable : Clearable setup state vaddr depth table low) :
    ∃ after,
      clearTables setup vaddr low.isNone
        (tablesTo setup state vaddr (depth + 1)) state = some after := by
  induction depth generalizing state table low with
  | zero =>
      rw [tablesTo_succ clearable.walk]
      rcases ((validSlots setup state table).erase
        (digit vaddr 0)).eq_empty_or_nonempty with emptied | shared
      · exact ⟨_, clearable.clearTables_of_emptied sound known emptied⟩
      · exact ⟨_, clearable.clearTables_of_shared sound known shared⟩
  | succ depth inductionHypothesis =>
      rw [tablesTo_succ clearable.walk]
      rcases ((validSlots setup state table).erase
        (digit vaddr (depth + 1))).eq_empty_or_nonempty with emptied | shared
      · obtain ⟨parent, _, above⟩ := clearable.above sound own emptied
        rw [clearable.clearTables_of_emptied sound known emptied,
          ← clearable.tablesTo_release sound]
        exact inductionHypothesis (clearable.treeSound sound)
          (fun other member =>
            known other (clearable.tables_release member)) above
      · exact ⟨_, clearable.clearTables_of_shared sound known shared⟩

/-- Removing the references of a mapped page ends. -/
theorem removeTableReference_isSome
    {level entry : Nat}
    (sound : TreeSound setup state)
    (known : TablesKnown setup state)
    (own : setup.OwnAddr vaddr)
    (leaf : LeafAt setup state vaddr level entry) :
    ∃ after, removeTableReference setup state vaddr = some after := by
  have collected :
      collectTables state.mem vaddr pgtblLvlNr setup.base [] =
        some (tablesTo setup state vaddr (level + 1)) :=
    collectTables_of_leafAt sound leaf
      (show tableAt setup state vaddr 0 = some setup.base from rfl)
      (Nat.zero_add _) (Nat.zero_le level)
  obtain ⟨⟨table, walk, holds⟩, valid, isLeaf⟩ := leaf
  have clearable : Clearable setup state vaddr level table none :=
    { walk := walk
      used :=
        mem_validSlots.mpr
          ⟨digit_lt vaddr level, sound.ownSlot own walk, by
            rw [holds, valid]⟩
      refers := by
        rw [holds, childOf_of_leaf isLeaf]
      emptied := fun _ impossible => nomatch impossible }
  simp only [removeTableReference, collected]
  exact clearTables_isSome sound known own clearable

/-- The remover changes no use count but those of tables. -/
theorem ClearRun.usecnt
    {low : Option Nat}
    (run : ClearRun setup vaddr depth low state after)
    (sound : TreeSound setup state) :
    ∀ pfn ∉ state.tables, after.usecnt pfn = state.usecnt pfn := by
  have round :
      ∀ {state depth table low},
        Clearable setup state vaddr depth table low →
        TreeSound setup state →
        ∀ pfn ∉ state.tables,
          ((state.clearEntry table (digit vaddr depth)).release low).usecnt
              pfn = state.usecnt pfn := by
    intro state depth table low clearable sound pfn notTable
    have notSelf : pfn ≠ table := by
      rintro rfl
      exact notTable (sound.mem_tables clearable.walk)
    cases isLow : low with
    | none =>
        exact Function.update_of_ne notSelf ..
    | some below =>
        have notLow : pfn ≠ below := by
          rintro rfl
          exact notTable (clearable.low_facts sound isLow).1
        exact (Function.update_of_ne notLow ..).trans
          (Function.update_of_ne notSelf ..)
  induction run with
  | stop clearable _ =>
      intro pfn notTable
      refine Function.update_of_ne ?_ ..
      rintro rfl
      exact notTable (sound.mem_tables clearable.walk)
  | top clearable =>
      exact round clearable sound
  | up clearable _ _ inductionHypothesis =>
      intro pfn notTable
      have notLater := fun member =>
        notTable (clearable.tables_release member)
      exact (inductionHypothesis (clearable.treeSound sound) pfn
        notLater).trans (round clearable sound pfn notTable)

/-! ## One page -/

/-- The page frame that a mapping maps first. -/
def Mapping.frame (mapping : Mapping) : Nat :=
  mapping.paddr >>> pageShift

/-- The leaves of one entry are gone, and no others. -/
def LeavesRemoved
    (setup : PgtblSetup)
    (before after : PgtblState)
    (vaddr level : Nat) : Prop :=
  ∀ other depth entry,
    LeafAt setup after other depth entry ↔
      LeafAt setup before other depth entry ∧ ¬ SameEntry level other vaddr

/-- What the reader finds when the leaves of one entry are gone. -/
theorem LeavesRemoved.extract
    {level : Nat}
    (removed : LeavesRemoved setup state after vaddr level)
    (sound : TreeSound setup state)
    (afterSound : TreeSound setup after)
    (other : Nat) :
    (SameEntry level other vaddr →
        halPgtblExtract setup after.mem other = .error .enoent) ∧
      (¬ SameEntry level other vaddr →
        halPgtblExtract setup after.mem other =
          halPgtblExtract setup state.mem other) := by
  constructor
  · intro same
    refine halPgtblExtract_of_no_leaf afterSound fun depth entry leaf => ?_
    exact ((removed _ _ _).mp leaf).2 same
  · intro different
    refine halPgtblExtract_congr sound afterSound fun depth entry => ?_
    exact (removed _ _ _).trans (and_iff_left different)

/-- A page that can be dropped: a counted frame that is no table. -/
structure Droppable
    (setup : PgtblSetup)
    (state : PgtblState)
    (pfn users : Nat) : Prop where
  known : setup.isPfnValid pfn = true
  notTable : pfn ∉ state.tables
  counted : users ≤ state.usecnt pfn

/-- What clearing the entry of a page does. -/
structure EntryCleared
    (setup : PgtblSetup)
    (vaddr level : Nat)
    (before after : PgtblState) : Prop where
  sound : TreeSound setup after
  known : TablesKnown setup after
  tables : after.tables ⊆ before.tables
  kept : FramesKept before after
  usecnt : ∀ pfn ∉ before.tables, after.usecnt pfn = before.usecnt pfn
  leaves : LeavesRemoved setup before after vaddr level

/-- The references of a mapped page can be removed. -/
theorem removeTableReference_of_leafAt
    {level entry : Nat}
    (sound : TreeSound setup state)
    (known : TablesKnown setup state)
    (own : setup.OwnAddr vaddr)
    (leaf : LeafAt setup state vaddr level entry) :
    ∃ after,
      removeTableReference setup state vaddr = some after ∧
        EntryCleared setup vaddr level state after := by
  obtain ⟨after, cleared⟩ := removeTableReference_isSome sound known own leaf
  obtain ⟨_, _, runLeaf, run⟩ := removeTableReference_run sound own cleared
  obtain ⟨rfl, rfl⟩ := sound.leafAt_unique leaf runLeaf
  have fewer : after.tables ⊆ state.tables := by
    simp only [removeTableReference] at cleared
    cases collected :
        collectTables state.mem vaddr pgtblLvlNr setup.base [] with
    | none =>
        rw [collected] at cleared
        cases cleared
    | some tables =>
        rw [collected] at cleared
        exact clearTables_tables cleared
  exact ⟨after, cleared,
    { sound := run.treeSound sound
      known := fun table member => known table (fewer member)
      tables := fewer
      kept := run.framesKept sound
      usecnt := run.usecnt sound
      leaves := fun _ _ _ => run.leafAt sound }⟩

/-- Work on other pages before the entry is cleared keeps the leaves. -/
theorem LeavesRemoved.of_otherWork
    {level : Nat}
    {middle : PgtblState}
    (removed : LeavesRemoved setup middle after vaddr level)
    (sound : TreeSound setup state)
    (work : OtherWork state middle) :
    LeavesRemoved setup state after vaddr level := by
  intro other depth entry
  refine (removed _ _ _).trans (and_congr_left fun _ => ?_)
  exact and_congr_left fun _ => work.entryAt sound

theorem OtherWork.tablesKnown
    (work : OtherWork state after)
    (known : TablesKnown setup state) :
    TablesKnown setup after := by
  rw [TablesKnown, work.tables]
  exact known

/-- What a round of `hal_pgtbl_remove` does at a mapped address. -/
structure PageRemoved
    (setup : PgtblSetup)
    (unmanaged : Bool)
    (vaddr : Nat)
    (mapping : Mapping)
    (before after : PgtblState) : Prop where
  sound : TreeSound setup after
  known : TablesKnown setup after
  tables : after.tables ⊆ before.tables
  leaves :
    ∃ level ≤ 2,
      mapping.pgsize = targetSize level ∧
        LeavesRemoved setup before after vaddr level
  usecnt :
    ∀ pfn ∉ before.tables,
      after.usecnt pfn =
        before.usecnt pfn -
          if unmanaged = false ∧ pfn = mapping.frame then 1 else 0

/-- Dropping the use count of a counted frame is work on other pages. -/
theorem releaseMapped_isSome
    {unmanaged : Bool}
    {mapping : Mapping}
    (sound : TreeSound setup state)
    (bound : mapping.frame < 2 ^ 44)
    (droppable :
      unmanaged = false → Droppable setup state mapping.frame 1) :
    ∃ middle,
      releaseMapped setup state unmanaged (.ok mapping) = some middle ∧
        OtherWork state middle ∧
        ∀ pfn,
          middle.usecnt pfn =
            state.usecnt pfn -
              if unmanaged = false ∧ pfn = mapping.frame then 1 else 0 := by
  cases unmanaged with
  | true =>
      exact ⟨state, rfl, OtherWork.refl sound, fun pfn => by simp⟩
  | false =>
      obtain ⟨known, notTable, counted⟩ := droppable rfl
      push_cast at counted
      have dropped :
          ∃ freed middle,
            decPageUseCount state mapping.frame = some (freed, middle) ∧
              middle.usecnt =
                Function.update state.usecnt mapping.frame
                  (state.usecnt mapping.frame - 1) := by
        simp only [decPageUseCount]
        rw [if_neg (by omega)]
        split_ifs with last
        · exact ⟨true, _, rfl, rfl⟩
        · exact ⟨false, _, rfl, rfl⟩
      obtain ⟨freed, middle, dropped, counts⟩ := dropped
      refine ⟨middle, ?_,
        decPageUseCount_otherWork sound notTable bound dropped,
        fun pfn => ?_⟩
      · rw [Mapping.frame] at known dropped
        simp only [releaseMapped, Bool.false_eq_true, if_false, known, if_true,
          dropped, Option.map_some]
      · rw [counts]
        by_cases same : pfn = mapping.frame
        · subst same
          rw [Function.update_self, if_pos ⟨rfl, rfl⟩]
        · rw [Function.update_of_ne same, if_neg fun both => same both.2,
            sub_zero]

/-- A round at a mapped address removes its page. -/
theorem removePage_of_mapped
    {unmanaged : Bool}
    {mapping : Mapping}
    (sound : TreeSound setup state)
    (known : TablesKnown setup state)
    (own : setup.OwnAddr vaddr)
    (extracted : halPgtblExtract setup state.mem vaddr = .ok mapping)
    (droppable :
      unmanaged = false → Droppable setup state mapping.frame 1) :
    ∃ after,
      removePage setup state unmanaged vaddr = some after ∧
        PageRemoved setup unmanaged vaddr mapping state after := by
  obtain ⟨level, entry, leaf, rfl⟩ :=
    leafAt_of_halPgtblExtract sound extracted
  have frame : (mappingOf entry (2 - level)).frame = pteToPfn entry :=
    mappingOf_pfn entry (2 - level)
  obtain ⟨middle, released, work, counts⟩ :=
    releaseMapped_isSome sound (frame ▸ ppnMask_and_lt _) droppable
  have middleSound := work.treeSound sound
  have middleLeaf : LeafAt setup middle vaddr level entry :=
    ⟨(work.entryAt sound).mpr leaf.1, leaf.2⟩
  obtain ⟨after, removed, cleared⟩ :=
    removeTableReference_of_leafAt middleSound (work.tablesKnown known) own
      middleLeaf
  obtain ⟨⟨table, walk, _⟩, _⟩ := leaf
  refine ⟨after, ?_,
    { sound := cleared.sound
      known := cleared.known
      tables := work.tables ▸ cleared.tables
      leaves :=
        ⟨level, Nat.lt_succ_iff.mp (sound.depth_lt walk), rfl,
          cleared.leaves.of_otherWork sound work⟩
      usecnt := ?_ }⟩
  · rw [removePage, extracted, released]
    exact removed
  · intro pfn notTable
    rw [← work.tables] at notTable
    rw [cleared.usecnt pfn notTable, counts]

/-! ## Whole pages -/

/-- An address lies in the page of a size that starts at an address. -/
def InPage (start size address : Nat) : Prop :=
  start ≤ address ∧ address < start + size

/-- The addresses of an aligned page select its entry, and no others. -/
theorem sameEntry_iff_inPage
    {level other : Nat}
    (bound : level ≤ 2)
    (inSv39 : InSv39 vaddr)
    (isAligned : vaddr % targetSize level = 0)
    (otherIn : InSv39 other) :
    SameEntry level other vaddr ↔ InPage vaddr (targetSize level) other := by
  rw [sameEntry_iff_of_inSv39 bound otherIn inSv39, InPage]
  have positive := targetSize_pos level
  generalize targetSize level = size at isAligned positive
  obtain ⟨number, rfl⟩ := Nat.dvd_of_mod_eq_zero isAligned
  rw [Nat.mul_div_cancel_left number positive,
    Nat.div_eq_iff positive]
  have order : number * size = size * number := Nat.mul_comm ..
  omega

/-- An aligned page that starts in Sv39 lies in Sv39. -/
theorem inSv39_of_inPage
    {level other : Nat}
    (bound : level ≤ 2)
    (inSv39 : InSv39 vaddr)
    (isAligned : vaddr % targetSize level = 0)
    (inside : InPage vaddr (targetSize level) other) :
    InSv39 other := by
  unfold InSv39 at *
  obtain ⟨lower, upper⟩ := inside
  interval_cases level
  · rw [show targetSize 0 = 2 ^ 30 by decide] at isAligned upper
    omega
  · rw [show targetSize 1 = 2 ^ 21 by decide] at isAligned upper
    omega
  · rw [show targetSize 2 = 2 ^ 12 by decide] at isAligned upper
    omega

/-- A mapped page has one of the three sizes. -/
theorem pgsize_of_extract
    {mapping : Mapping}
    (sound : TreeSound setup state)
    (extracted : halPgtblExtract setup state.mem vaddr = .ok mapping) :
    ∃ level ≤ 2, mapping.pgsize = targetSize level := by
  obtain ⟨level, entry, ⟨⟨table, walk, _⟩, _⟩, rfl⟩ :=
    leafAt_of_halPgtblExtract sound extracted
  exact ⟨level, Nat.lt_succ_iff.mp (sound.depth_lt walk), rfl⟩

/-- The mapped pages that make up a range, from its start to its end. -/
def WholePages
    (setup : PgtblSetup)
    (mem : Nat → Nat → Nat) :
    Nat → List Mapping → Nat → Prop
  | start, [], stop => start = stop
  | start, mapping :: pages, stop =>
      halPgtblExtract setup mem start = .ok mapping ∧
        InSv39 start ∧
        start % mapping.pgsize = 0 ∧
        WholePages setup mem (start + mapping.pgsize) pages stop

namespace WholePages

variable {start stop : Nat}
variable {pages : List Mapping}

/-- Every page takes at least 4 KiB of the range. -/
theorem length_le
    (whole : WholePages setup state.mem start pages stop)
    (sound : TreeSound setup state) :
    start + pages.length * pageSize ≤ stop := by
  induction pages generalizing start with
  | nil =>
      have empty : start = stop := whole
      simp [empty]
  | cons mapping pages inductionHypothesis =>
      obtain ⟨extracted, _, _, later⟩ := whole
      obtain ⟨level, bound, size⟩ := pgsize_of_extract sound extracted
      have small :=
        Nat.le_of_dvd (targetSize_pos level) (pageSize_dvd_targetSize bound)
      have rest := inductionHypothesis later
      rw [List.length_cons, Nat.add_mul, Nat.one_mul]
      omega

theorem le
    (whole : WholePages setup state.mem start pages stop)
    (sound : TreeSound setup state) :
    start ≤ stop :=
  (Nat.le_add_right _ _).trans (whole.length_le sound)

/-- The pages end where the address space ends, at the latest. -/
theorem stop_le
    (whole : WholePages setup state.mem start pages stop)
    (sound : TreeSound setup state)
    (nonempty : pages ≠ []) :
    stop ≤ addressSpace := by
  induction pages generalizing start with
  | nil =>
      exact absurd rfl nonempty
  | cons mapping pages inductionHypothesis =>
      obtain ⟨extracted, inSv39, isAligned, later⟩ := whole
      cases pages with
      | cons next pages =>
          exact inductionHypothesis later (List.cons_ne_nil _ _)
      | nil =>
          obtain rfl : start + mapping.pgsize = stop := later
          obtain ⟨level, bound, size⟩ := pgsize_of_extract sound extracted
          rw [size] at isAligned ⊢
          have positive := targetSize_pos level
          have last :=
            inSv39_of_inPage bound inSv39 isAligned
              (show InPage start (targetSize level)
                (start + (targetSize level - 1)) from
                  ⟨by omega, by omega⟩)
          have inSpace : start + (targetSize level - 1) < 2 ^ 64 := by
            unfold InSv39 at last
            omega
          rw [addressSpace]
          omega

/-- The bounds of the pages are page aligned. -/
theorem aligned
    (whole : WholePages setup state.mem start pages stop)
    (sound : TreeSound setup state)
    (nonempty : pages ≠ []) :
    pageSize ∣ start ∧ pageSize ∣ stop := by
  induction pages generalizing start with
  | nil =>
      exact absurd rfl nonempty
  | cons mapping pages inductionHypothesis =>
      obtain ⟨extracted, _, isAligned, later⟩ := whole
      obtain ⟨level, bound, size⟩ := pgsize_of_extract sound extracted
      have small := pageSize_dvd_targetSize bound
      rw [← size] at small
      have startAligned := small.trans (Nat.dvd_of_mod_eq_zero isAligned)
      refine ⟨startAligned, ?_⟩
      cases pages with
      | nil =>
          obtain rfl : start + mapping.pgsize = stop := later
          exact Nat.dvd_add startAligned small
      | cons next pages =>
          exact (inductionHypothesis later (List.cons_ne_nil _ _)).2

/-- Where the reader finds the same, the same pages make up the range. -/
theorem congr
    (whole : WholePages setup state.mem start pages stop)
    (same :
      ∀ address, InSv39 address → start ≤ address →
        halPgtblExtract setup after.mem address =
          halPgtblExtract setup state.mem address) :
    WholePages setup after.mem start pages stop := by
  induction pages generalizing start with
  | nil =>
      exact whole
  | cons mapping pages inductionHypothesis =>
      obtain ⟨extracted, inSv39, isAligned, later⟩ := whole
      refine ⟨(same start inSv39 le_rfl).trans extracted, inSv39, isAligned,
        inductionHypothesis later fun address addressIn above => ?_⟩
      exact same address addressIn ((Nat.le_add_right _ _).trans above)

end WholePages

/-- What the removal of the pages of a range leaves behind. -/
structure RangeRemoved
    (setup : PgtblSetup)
    (unmanaged : Bool)
    (start stop : Nat)
    (pages : List Mapping)
    (before after : PgtblState) : Prop where
  unmapped :
    ∀ address, start ≤ address → address < stop →
      halPgtblExtract setup after.mem address = .error .enoent
  others :
    ∀ address, InSv39 address → ¬ (start ≤ address ∧ address < stop) →
      halPgtblExtract setup after.mem address =
        halPgtblExtract setup before.mem address
  usecnt :
    ∀ pfn ∉ before.tables,
      after.usecnt pfn =
        before.usecnt pfn -
          if unmanaged then 0 else (pages.map Mapping.frame).count pfn

/-- The frames of managed pages are counted once for each of the pages. -/
def FramesCounted
    (setup : PgtblSetup)
    (state : PgtblState)
    (unmanaged : Bool)
    (pages : List Mapping) : Prop :=
  unmanaged = false →
    ∀ pfn ∈ pages.map Mapping.frame,
      Droppable setup state pfn ((pages.map Mapping.frame).count pfn)

/-- Removing the first page leaves the frames of the others counted. -/
theorem FramesCounted.tail
    {unmanaged : Bool}
    {mapping : Mapping}
    {pages : List Mapping}
    (counted : FramesCounted setup state unmanaged (mapping :: pages))
    (removed : PageRemoved setup unmanaged vaddr mapping state after) :
    FramesCounted setup after unmanaged pages := by
  intro managed pfn member
  obtain ⟨known, notTable, users⟩ :=
    counted managed pfn (List.mem_cons_of_mem _ member)
  refine ⟨known, fun isTable => notTable (removed.tables isTable), ?_⟩
  rw [removed.usecnt pfn notTable]
  rw [List.map_cons, List.count_cons] at users
  by_cases same : pfn = mapping.frame
  · subst same
    rw [if_pos ⟨managed, rfl⟩]
    simp only [beq_self_eq_true, if_true] at users
    push_cast at users
    omega
  · have different : ¬ (mapping.frame == pfn) = true := fun isSame =>
      same (beq_iff_eq.mp isSame).symm
    rw [if_neg different] at users
    rw [if_neg fun both => same both.2]
    omega

/-- The round of the first page, and what the others do, remove the range. -/
theorem RangeRemoved.cons
    {unmanaged : Bool}
    {mapping : Mapping}
    {pages : List Mapping}
    {stop : Nat}
    {middle : PgtblState}
    (sound : TreeSound setup state)
    (inSv39 : InSv39 vaddr)
    (isAligned : vaddr % mapping.pgsize = 0)
    (first : PageRemoved setup unmanaged vaddr mapping state middle)
    (bound : vaddr + mapping.pgsize ≤ stop)
    (later :
      RangeRemoved setup unmanaged (vaddr + mapping.pgsize) stop pages middle
        after) :
    RangeRemoved setup unmanaged vaddr stop (mapping :: pages) state after := by
  obtain ⟨level, levelBound, size, leaves⟩ := first.leaves
  rw [size] at isAligned bound later
  have found := leaves.extract sound first.sound
  have inPage :
      ∀ {other}, InSv39 other →
        (SameEntry level other vaddr ↔
          InPage vaddr (targetSize level) other) :=
    sameEntry_iff_inPage levelBound inSv39 isAligned
  refine
    { unmapped := ?_
      others := ?_
      usecnt := ?_ }
  · intro address lower upper
    by_cases here : address < vaddr + targetSize level
    · have addressIn :=
        inSv39_of_inPage levelBound inSv39 isAligned ⟨lower, here⟩
      rw [later.others address addressIn fun both => by omega]
      exact (found address).1 ((inPage addressIn).mpr ⟨lower, here⟩)
    · exact later.unmapped address (not_lt.mp here) upper
  · intro address addressIn outside
    rw [later.others address addressIn fun both =>
      outside ⟨by omega, both.2⟩]
    refine (found address).2 fun same => ?_
    obtain ⟨lower, upper⟩ := (inPage addressIn).mp same
    exact outside ⟨lower, by omega⟩
  · intro pfn notTable
    rw [later.usecnt pfn fun isTable => notTable (first.tables isTable),
      first.usecnt pfn notTable, List.map_cons, List.count_cons]
    cases unmanaged with
    | true =>
        simp
    | false =>
        by_cases same : pfn = mapping.frame
        · subst same
          simp only [beq_self_eq_true, and_self, if_true, Bool.false_eq_true,
            if_false]
          push_cast
          ring
        · have different : ¬ (mapping.frame == pfn) = true := fun isSame =>
            same (beq_iff_eq.mp isSame).symm
          rw [if_neg different, if_neg fun both => same both.2]
          simp

/-- The loop of `hal_pgtbl_remove` removes the pages of its range. -/
theorem removeLoop_of_wholePages
    {unmanaged : Bool}
    {pages : List Mapping}
    {stop rounds pgsize : Nat}
    (sound : TreeSound setup state)
    (known : TablesKnown setup state)
    (whole : WholePages setup state.mem vaddr pages stop)
    (own : ∀ address, vaddr ≤ address → address < stop → setup.OwnAddr address)
    (counted : FramesCounted setup state unmanaged pages)
    (inSpace : stop < addressSpace)
    (enough : pages.length < rounds) :
    ∃ after,
      removeLoop setup unmanaged stop rounds vaddr pgsize state = some after ∧
        RangeRemoved setup unmanaged vaddr stop pages state after := by
  induction pages generalizing vaddr rounds pgsize state with
  | nil =>
      obtain rfl : vaddr = stop := whole
      obtain ⟨left, rfl⟩ :=
        Nat.exists_eq_succ_of_ne_zero (Nat.ne_zero_of_lt enough)
      refine ⟨state, ?_,
        { unmapped := fun address lower upper => by omega
          others := fun _ _ _ => rfl
          usecnt := fun pfn _ => by simp }⟩
      rw [removeLoop, if_neg (lt_irrefl vaddr)]
  | cons mapping pages inductionHypothesis =>
      obtain ⟨left, rfl⟩ :=
        Nat.exists_eq_succ_of_ne_zero (Nat.ne_zero_of_lt enough)
      obtain ⟨extracted, inSv39, isAligned, later⟩ := whole
      obtain ⟨level, levelBound, size⟩ := pgsize_of_extract sound extracted
      have positive := targetSize_pos level
      have bound := later.le sound
      have droppable :
          unmanaged = false → Droppable setup state mapping.frame 1 := by
        intro managed
        obtain ⟨frameKnown, notTable, users⟩ :=
          counted managed mapping.frame List.mem_cons_self
        exact ⟨frameKnown, notTable, le_trans (by simp) users⟩
      obtain ⟨middle, removed, first⟩ :=
        removePage_of_mapped sound known (own vaddr le_rfl (by omega))
          extracted droppable
      have others :
          ∀ address, InSv39 address → vaddr + mapping.pgsize ≤ address →
            halPgtblExtract setup middle.mem address =
              halPgtblExtract setup state.mem address := by
        intro address addressIn above
        obtain ⟨depth, depthBound, sameSize, leaves⟩ := first.leaves
        rw [sameSize] at above isAligned
        refine (leaves.extract sound first.sound address).2 fun same => ?_
        have inside :=
          (sameEntry_iff_inPage depthBound inSv39 isAligned addressIn).mp same
        exact absurd inside.2 (not_lt.mpr above)
      obtain ⟨after, (looped :
          removeLoop setup unmanaged stop left (vaddr + mapping.pgsize)
            mapping.pgsize middle = some after), rest⟩ :=
        inductionHypothesis first.sound first.known (later.congr others)
          (fun address lower upper => own address (by omega) upper)
          (counted.tail first) (Nat.lt_of_succ_lt_succ enough)
      refine ⟨after, ?_,
        RangeRemoved.cons sound inSv39 isAligned first bound rest⟩
      rw [removeLoop, if_pos (by omega)]
      simp only [removed, extracted, pgsizeAfter]
      rw [Nat.mod_eq_of_lt (by omega)]
      exact looped

/--
In a run of sound steps a range of whole mapped pages is removed as a whole,
unless its end wraps round the address space.
-/
theorem range_removed_iff
    {flags len : Nat}
    {pages : List Mapping}
    (new : NewPgtbl setup initial)
    (known : TablesKnown setup initial)
    (run :
      Run (Guarded (StepKnown setup) (PgtblStep setup)) initial actions state)
    (whole : WholePages setup state.mem vaddr pages (vaddr + len))
    (own :
      ∀ address, vaddr ≤ address → address < vaddr + len →
        setup.OwnAddr address)
    (counted :
      FramesCounted setup state (flags &&& vmFlagsUnmanaged != 0) pages) :
    (∃ after,
        halPgtblRemove setup state vaddr flags len = some after ∧
          RangeRemoved setup (flags &&& vmFlagsUnmanaged != 0) vaddr
            (vaddr + len) pages state after) ↔
      pages = [] ∨ vaddr + len < addressSpace := by
  obtain ⟨sound, tablesKnown⟩ := run_tablesKnown new known run
  have rounds : removeRounds = 2 ^ 52 + 1 := rfl
  by_cases empty : pages = []
  · refine ⟨fun _ => .inl empty, fun _ => ⟨state, ?_, ?_⟩⟩
    · subst empty
      have none : len = 0 := by
        have same : vaddr = vaddr + len := whole
        omega
      simp only [halPgtblRemove, none, Nat.add_zero]
      split_ifs with isAligned
      · rw [rounds, removeLoop, if_neg (not_lt.mpr (Nat.mod_le _ _))]
      · rfl
    · subst empty
      have same : vaddr = vaddr + len := whole
      exact
        { unmapped := fun address lower upper => by omega
          others := fun _ _ _ => rfl
          usecnt := fun pfn _ => by simp }
  · obtain ⟨startAligned, stopAligned⟩ := whole.aligned sound empty
    have stopBound := whole.stop_le sound empty
    have length := whole.length_le sound
    have space : addressSpace = 2 ^ 64 := rfl
    rw [show pageSize = 4096 from rfl] at length
    have endAligned : pageSize ∣ (vaddr + len) % addressSpace :=
      (Nat.dvd_mod_iff (by decide)).mpr stopAligned
    have bothAligned :
        (aligned vaddr pageSize &&
          aligned ((vaddr + len) % addressSpace) pageSize) = true := by
      rw [Bool.and_eq_true, aligned, aligned, beq_iff_eq, beq_iff_eq]
      exact ⟨Nat.mod_eq_zero_of_dvd startAligned,
        Nat.mod_eq_zero_of_dvd endAligned⟩
    simp only [halPgtblRemove, bothAligned, if_true]
    constructor
    · rintro ⟨after, removed, range⟩
      by_contra wraps
      push Not at wraps
      have stop : vaddr + len = addressSpace := by omega
      rw [stop, Nat.mod_self, rounds, removeLoop,
        if_neg (Nat.not_lt_zero vaddr)] at removed
      cases removed
      -- the first page is still mapped
      obtain ⟨mapping, rest, rfl⟩ := List.exists_cons_of_ne_nil empty
      obtain ⟨extracted, inSv39, _, _⟩ := whole
      have inSpace : vaddr < addressSpace := by
        unfold InSv39 at inSv39
        omega
      have unmapped := range.unmapped vaddr le_rfl (by omega)
      rw [extracted] at unmapped
      cases unmapped
    · rintro (isEmpty | inSpace)
      · exact absurd isEmpty empty
      · rw [Nat.mod_eq_of_lt inSpace]
        exact removeLoop_of_wholePages sound tablesKnown whole own counted
          inSpace (by omega)

/-- A small page and a large page are removed with their use counts. -/
theorem range_removed_iff_mixedSizes :
    ∃ state after,
      Run (Guarded (StepKnown bareSetup) (PgtblStep bareSetup))
          (bareState [2, 3] [0x100, 0x400])
          [.call (.enter (smallPage 0x1ff000 0x100000)),
            .call (.enter (largePage 0x200000 0x400000 3))] state ∧
        halPgtblRemove bareSetup state 0x1ff000 0 0x201000 = some after ∧
        RangeRemoved bareSetup false 0x1ff000 0x400000
          [mappingOf (leafPte 3 0 0x100000) 0,
            mappingOf (leafPte 3 0 0x400000) 1] state after := by
  obtain ⟨middle, first⟩ :
      ∃ middle,
        pgtblCall bareSetup (bareState [2, 3] [0x100, 0x400])
          (.enter (smallPage 0x1ff000 0x100000)) = some middle :=
    Option.isSome_iff_exists.mp (by decide +kernel)
  have facts :
      ((pgtblCall bareSetup (bareState [2, 3] [0x100, 0x400])
          (.enter (smallPage 0x1ff000 0x100000))).bind fun middle =>
        (pgtblCall bareSetup middle
          (.enter (largePage 0x200000 0x400000 3))).map fun state =>
            ([halPgtblExtract bareSetup middle.mem 0x200000,
                halPgtblExtract bareSetup state.mem 0x1ff000,
                halPgtblExtract bareSetup state.mem 0x200000],
              state.tables, [state.usecnt 0x100, state.usecnt 0x400])) =
        some
          ([.error .enoent, .ok (mappingOf (leafPte 3 0 0x100000) 0),
              .ok (mappingOf (leafPte 3 0 0x400000) 1)],
            [3, 2, 1], [1, 1]) := by
    decide +kernel
  rw [first, Option.bind_some] at facts
  obtain ⟨state, second, same⟩ := Option.map_eq_some_iff.mp facts
  simp only [Prod.mk.injEq, List.cons.injEq, and_true] at same
  obtain ⟨⟨unmapped, small, large⟩, tables, smallCount, largeCount⟩ := same
  have new : NewPgtbl bareSetup (bareState [2, 3] [0x100, 0x400]) :=
    bareState_new (by decide) (by decide)
  have firstSound :
      StepSound bareSetup (bareState [2, 3] [0x100, 0x400])
        (.call (.enter (smallPage 0x1ff000 0x100000))) :=
    fun _ _ => .inr ⟨by decide, fun _ _ _ => bareState_no_leaf _ _ _⟩
  have middleSound : TreeSound bareSetup middle :=
    pgtblStep_sound new.tree firstSound first
  have secondSound :
      StepSound bareSetup middle
        (.call (.enter (largePage 0x200000 0x400000 3))) := by
    intro page bound
    obtain rfl : page = 0 := Nat.lt_one_iff.mp bound
    refine .inr ⟨by decide, fun level _ entry leaf => ?_⟩
    have mapped := halPgtblExtract_of_leaf middleSound leaf
    rw [Nat.zero_mul, Nat.add_zero] at mapped
    have nothing :
        halPgtblExtract bareSetup middle.mem
          (largePage 0x200000 0x400000 3).vaddr = .error .enoent :=
      unmapped
    rw [nothing] at mapped
    cases mapped
  have run :
      Run (Guarded (StepKnown bareSetup) (PgtblStep bareSetup))
        (bareState [2, 3] [0x100, 0x400])
        [.call (.enter (smallPage 0x1ff000 0x100000)),
          .call (.enter (largePage 0x200000 0x400000 3))] state :=
    .snoc (.snoc .nil ⟨⟨firstSound, fun _ _ => rfl⟩, first⟩)
      ⟨⟨secondSound, fun _ _ => rfl⟩, second⟩
  have whole :
      WholePages bareSetup state.mem 0x1ff000
        [mappingOf (leafPte 3 0 0x100000) 0,
          mappingOf (leafPte 3 0 0x400000) 1] (0x1ff000 + 0x201000) :=
    ⟨small, by left; decide, by decide, large, by left; decide, by decide,
      rfl⟩
  have counted :
      FramesCounted bareSetup state (0 &&& vmFlagsUnmanaged != 0)
        [mappingOf (leafPte 3 0 0x100000) 0,
          mappingOf (leafPte 3 0 0x400000) 1] := by
    intro _ pfn member
    have frames : pfn = 0x100 ∨ pfn = 0x400 := by
      revert member
      have same :
          [mappingOf (leafPte 3 0 0x100000) 0,
            mappingOf (leafPte 3 0 0x400000) 1].map Mapping.frame =
            [0x100, 0x400] := by
        decide
      rw [same]
      simp
    rcases frames with rfl | rfl
    · refine ⟨rfl, by rw [tables]; decide, ?_⟩
      rw [smallCount]
      decide
    · refine ⟨rfl, by rw [tables]; decide, ?_⟩
      rw [largeCount]
      decide
  obtain ⟨after, removed, range⟩ :=
    (range_removed_iff new (fun _ _ => rfl) run whole (fun _ _ _ => rfl)
      counted).mpr (.inr (by decide))
  exact ⟨state, after, run, removed, range⟩

/--
Below an entry without access that refers to a table, removing a page unmaps
an address outside the range.
-/
theorem remove_unmaps_outside :
    NewPgtbl bareSetup (bareState [2, 512] []) ∧
      ∃ state after,
        Run (PgtblStep bareSetup) (bareState [2, 512] [])
            [.call (.enter (smallPage 0 0x100000)),
              .call (.enter (largePage 0x200000 0x200000 0)),
              .call (.enter (smallPage 0x1000 0x101000))] state ∧
          WholePages bareSetup state.mem 0x1000
            [mappingOf (leafPte 3 0 0x101000) 0] (0x1000 + pageSize) ∧
          halPgtblRemove bareSetup state 0x1000 vmFlagsUnmanaged pageSize =
            some after ∧
          InSv39 0x201000 ∧
          halPgtblExtract bareSetup state.mem 0x201000 =
            .ok (mappingOf (leafPte 3 0 0x101000) 0) ∧
          halPgtblExtract bareSetup after.mem 0x201000 = .error .enoent := by
  refine ⟨bareState_new (by decide) (by decide), ?_⟩
  obtain ⟨state, executed⟩ :
      ∃ state,
        execute (pgtblCall bareSetup) (bareState [2, 512] [])
          [.enter (smallPage 0 0x100000),
            .enter (largePage 0x200000 0x200000 0),
            .enter (smallPage 0x1000 0x101000)] = some state :=
    Option.isSome_iff_exists.mp (by decide +kernel)
  have facts :
      ((execute (pgtblCall bareSetup) (bareState [2, 512] [])
          [.enter (smallPage 0 0x100000),
            .enter (largePage 0x200000 0x200000 0),
            .enter (smallPage 0x1000 0x101000)]).bind fun state =>
        (halPgtblRemove bareSetup state 0x1000 vmFlagsUnmanaged
          pageSize).map fun after =>
            (halPgtblExtract bareSetup state.mem 0x1000,
              halPgtblExtract bareSetup state.mem 0x201000,
              halPgtblExtract bareSetup after.mem 0x201000)) =
        some
          (.ok (mappingOf (leafPte 3 0 0x101000) 0),
            .ok (mappingOf (leafPte 3 0 0x101000) 0), .error .enoent) := by
    decide +kernel
  rw [executed, Option.bind_some] at facts
  obtain ⟨after, removed, same⟩ := Option.map_eq_some_iff.mp facts
  simp only [Prod.mk.injEq] at same
  obtain ⟨mapped, outside, changed⟩ := same
  exact ⟨state, after, run_of_calls executed,
    ⟨mapped, by left; decide, by decide, rfl⟩, removed, by left; decide,
    outside, changed⟩

end RiscvWorkshop.Pgtbl
