import Mathlib
import RiscvWorkshop.PageTableSteps

namespace RiscvWorkshop.Pgtbl

open RadixWalk

/-!
# Mapping one page

The writer walks down one level after the other.  Below a table it follows or
attaches a table, and it stops at the level of the page size.  The module says
once what such a walk can do, and derives from it what mapping a page does to
the tree and to the leaves.
-/

variable {setup : PgtblSetup}
variable {state after : PgtblState}
variable {vaddr depth target table pte : Nat}
variable {result : Except Errno Unit}

/-- The tree does not depend on the record of visits. -/
theorem TreeSound.of_visited
    (sound : TreeSound setup state)
    (visited : List (Nat × Bool)) :
    TreeSound setup { state with visited := visited } :=
  { base := sound.base
    nodup := sound.nodup
    pages := sound.pages
    counted := sound.counted
    closed := sound.closed
    oneParent := sound.oneParent
    depth := sound.depth
    inheritedUsed := sound.inheritedUsed
    freeNodup := sound.freeNodup
    freeFresh := sound.freeFresh }

theorem TreeSound.visit
    (sound : TreeSound setup state)
    (table : Nat) :
    TreeSound setup (state.visit table) :=
  sound.of_visited _

/-- Tables have a use count that can be raised. -/
theorem TreeSound.usecnt_pos
    (sound : TreeSound setup state)
    (member : table ∈ state.tables) :
    0 < state.usecnt table := by
  rw [sound.counted table member]
  positivity

/-- The sizes of the three levels differ. -/
theorem pgtblCalcPagesize_inj
    {first second : Nat}
    (firstBound : first < pgtblLvlNr)
    (secondBound : second < pgtblLvlNr) :
    pgtblCalcPagesize first = pgtblCalcPagesize second ↔ first = second := by
  rw [pgtblLvlNr] at firstBound secondBound
  interval_cases first <;> interval_cases second <;> decide

/-! ## The walk of the writer -/

/-- What the writer can do from a depth on to map a page at the target depth. -/
inductive MapRun
    (setup : PgtblSetup)
    (vaddr target pte : Nat) :
    Nat → PgtblState → Except Errno Unit → PgtblState → Prop where
  | busy
      {state : PgtblState}
      {table : Nat}
      (walk : tableAt setup state vaddr target = some table)
      (used : pteIsValid (state.mem table (digit vaddr target)) = true) :
      MapRun setup vaddr target pte target state (.error .ebusy)
        (state.visit table)
  | mapped
      {state : PgtblState}
      {table : Nat}
      (walk : tableAt setup state vaddr target = some table)
      (unused : pteIsValid (state.mem table (digit vaddr target)) = false) :
      MapRun setup vaddr target pte target state (.ok ())
        ((state.visit table).mapLeaf table (digit vaddr target) pte)
  | noMemory
      {state : PgtblState}
      {depth table : Nat}
      (early : depth < target)
      (walk : tableAt setup state vaddr depth = some table)
      (unused : pteIsValid (state.mem table (digit vaddr depth)) = false) :
      MapRun setup vaddr target pte depth state (.error .enomem)
        (state.visit table)
  | follow
      {state after : PgtblState}
      {result : Except Errno Unit}
      {depth table below : Nat}
      (early : depth < target)
      (walk : tableAt setup state vaddr depth = some table)
      (next : tableAt setup state vaddr (depth + 1) = some below)
      (later :
        MapRun setup vaddr target pte (depth + 1) (state.visit table) result
          after) :
      MapRun setup vaddr target pte depth state result after
  | attach
      {state after : PgtblState}
      {result : Except Errno Unit}
      {depth table fresh : Nat}
      {rest : List Nat}
      (early : depth < target)
      (attachable :
        Attachable setup (state.visit table) vaddr depth table fresh rest)
      (later :
        MapRun setup vaddr target pte (depth + 1)
          ((state.visit table).growTable table (digit vaddr depth) fresh rest)
          result after) :
      MapRun setup vaddr target pte depth state result after

/-- The count of a table can always be raised. -/
theorem incPageUseCount_of_pos
    (positive : 0 < state.usecnt table) :
    incPageUseCount state table =
      some
        { state with
          usecnt :=
            Function.update state.usecnt table (state.usecnt table + 1) } :=
  if_neg positive.ne'

/-- The loop of the writer does what a walk of the writer can do. -/
theorem mapLoop_run
    {lvl paddr prot flags : Nat}
    (sound : TreeSound setup state)
    (walk : tableAt setup state vaddr depth = some table)
    (levels : depth + lvl = pgtblLvlNr)
    (targetBound : target ≤ 2)
    (reach : depth ≤ target)
    (noLarger :
      ∀ level < target, ∀ entry, ¬ LeafAt setup state vaddr level entry)
    (mapped :
      mapLoop setup vaddr paddr prot flags (pgtblCalcPagesize (2 - target)) lvl
        table state = some (result, after)) :
    MapRun setup vaddr target (leafPte prot flags paddr) depth state result
      after := by
  induction lvl generalizing state depth table with
  | zero =>
      have levelNr : pgtblLvlNr = 3 := rfl
      omega
  | succ lvl inductionHypothesis =>
      have levelNr : pgtblLvlNr = 3 := rfl
      have lvlDepth : lvl = 2 - depth := by omega
      have member := sound.mem_tables walk
      have size :
          pgtblCalcPagesize lvl = pgtblCalcPagesize (2 - target) ↔
            depth = target := by
        rw [pgtblCalcPagesize_inj (by omega) (by omega)]
        omega
      have index : pgtblCalcIndexVal vaddr lvl = digit vaddr depth := by
        rw [digit, lvlDepth]
      simp only [mapLoop, growPgtbl, index, size] at mapped
      by_cases known : setup.isPfnValid table = true
      · rw [if_pos known] at mapped
        cases used : pteIsValid (state.mem table (digit vaddr depth)) with
        | true =>
            rw [used, if_pos rfl] at mapped
            by_cases here : depth = target
            · subst here
              rw [if_pos rfl] at mapped
              cases mapped
              exact .busy walk used
            · rw [if_neg here] at mapped
              have early : depth < target := lt_of_le_of_ne reach here
              -- a valid entry above the target is no leaf
              have notLeaf :
                  pteIsLeaf (state.mem table (digit vaddr depth)) = false := by
                by_contra leaf
                exact noLarger depth early _
                  ⟨⟨table, walk, rfl⟩, used, Bool.not_eq_false _ ▸ leaf⟩
              have next := sound.tableAt_succ walk
              rw [childOf_eq_some.mpr ⟨used, notLeaf, rfl⟩] at next
              exact .follow early walk next
                (inductionHypothesis (sound.visit table) next (by omega) early
                  noLarger mapped)
        | false =>
            rw [used, if_neg Bool.false_ne_true] at mapped
            by_cases here : depth = target
            · subst here
              have positive :
                  0 < ((state.visit table).writePte table (digit vaddr depth)
                    (leafPte prot flags paddr)).usecnt table :=
                sound.usecnt_pos member
              rw [if_pos rfl, incPageUseCount_of_pos positive] at mapped
              cases mapped
              exact .mapped walk used
            · rw [if_neg here] at mapped
              have early : depth < target := lt_of_le_of_ne reach here
              cases allocated : pgtblAllocPgtblPage (state.visit table) with
              | none =>
                  rw [allocated] at mapped
                  cases mapped
                  exact .noMemory early walk used
              | some page =>
                  obtain ⟨fresh, grown⟩ := page
                  obtain ⟨rest, free, rfl⟩ :=
                    pgtblAllocPgtblPage_eq_some allocated
                  have attachable :
                      Attachable setup (state.visit table) vaddr depth table
                        fresh rest :=
                    { walk := walk
                      upper := by omega
                      unused := used
                      free := free }
                  have visited := sound.visit table
                  have count :
                      ((state.visit table).addTable fresh rest).usecnt table =
                        (state.visit table).usecnt table :=
                    Function.update_of_ne (attachable.table_ne visited) ..
                  have positive :
                      0 < ((state.visit table).addTable fresh rest).usecnt
                        table := by
                    rw [count]
                    exact sound.usecnt_pos member
                  rw [allocated] at mapped
                  simp only [incPageUseCount_of_pos positive, count,
                    Option.map_some] at mapped
                  refine .attach early attachable
                    (inductionHypothesis (attachable.treeSound visited)
                      (attachable.tableAt_succ visited) (by omega) early ?_
                      mapped)
                  rintro level bound entry ⟨found, valid, leaf⟩
                  refine noLarger level bound entry ⟨?_, valid, leaf⟩
                  apply (attachable.entryAt visited valid ?_).mp found
                  rintro ⟨_, rfl⟩
                  rw [(childOf_eq_some.mp (attachable.refers visited)).2.1]
                    at leaf
                  cases leaf
      · rw [if_neg known] at mapped
        cases mapped

/-! ## Mapping one page -/

/-- The tree and the leaves after one page was mapped. -/
structure PageMapped
    (setup : PgtblSetup)
    (vaddr target pte : Nat)
    (before after : PgtblState) : Prop where
  unused : ¬ EntryBusy setup before vaddr target
  leaf :
    ∀ {other},
      SameEntry target other vaddr → LeafAt setup after other target pte
  others :
    ∀ {other level entry},
      ¬ SameEntry target other vaddr →
      pteIsValid entry = true →
      pteIsLeaf entry = true ∨ level = target →
        (EntryAt setup after other level entry ↔
          EntryAt setup before other level entry)

/--
Pages that were neither tables nor free keep their contents, and new tables
come from the free pages.
-/
structure DataKept (before after : PgtblState) : Prop where
  mem :
    ∀ pfn ∉ before.tables, pfn ∉ before.free → after.mem pfn = before.mem pfn
  tables :
    ∀ pfn ∈ after.tables, pfn ∈ before.tables ∨ pfn ∈ before.free
  free : ∀ pfn ∈ after.free, pfn ∈ before.free

theorem DataKept.refl (state : PgtblState) : DataKept state state :=
  { mem := fun _ _ _ => rfl
    tables := fun _ => .inl
    free := fun _ => id }

theorem DataKept.visit
    (state : PgtblState)
    (table : Nat) :
    DataKept state (state.visit table) :=
  { mem := fun _ _ _ => rfl
    tables := fun _ => .inl
    free := fun _ => id }

theorem DataKept.trans
    {middle : PgtblState}
    (first : DataKept state middle)
    (second : DataKept middle after) :
    DataKept state after :=
  { mem := fun pfn notTable notFree =>
      (second.mem pfn
        (fun known => (first.tables pfn known).elim notTable notFree)
        (fun known => notFree (first.free pfn known))).trans
        (first.mem pfn notTable notFree)
    tables := fun pfn known =>
      (second.tables pfn known).elim (first.tables pfn)
        fun free => .inr (first.free pfn free)
    free := fun pfn known => first.free pfn (second.free pfn known) }

/-- Every page used as a table was one. -/
def VisitsSound (state : PgtblState) : Prop :=
  ∀ visit ∈ state.visited, visit.2 = true

theorem VisitsSound.visit
    (visits : VisitsSound state)
    (member : table ∈ state.tables) :
    VisitsSound (state.visit table) := by
  intro visit holds
  rcases List.mem_cons.mp holds with rfl | older
  · exact decide_eq_true member
  · exact visits visit older

namespace Attachable

variable {fresh : Nat}
variable {rest : List Nat}
variable (attachable : Attachable setup state vaddr depth table fresh rest)
variable (sound : TreeSound setup state)

include attachable sound in
/-- Leaves, and entries below the new table's own, are found as before. -/
theorem entryAt_of_leaf_or_target
    {other level entry : Nat}
    (early : depth < target)
    (valid : pteIsValid entry = true)
    (either : pteIsLeaf entry = true ∨ level = target) :
    EntryAt setup (state.growTable table (digit vaddr depth) fresh rest) other
        level entry ↔
      EntryAt setup state other level entry := by
  apply attachable.entryAt sound valid
  rintro ⟨rfl, rfl⟩
  rcases either with leaf | rfl
  · rw [(childOf_eq_some.mp (attachable.refers sound)).2.1] at leaf
    cases leaf
  · exact absurd early (lt_irrefl _)

include attachable sound in
/-- Below an unused slot nothing is in use. -/
theorem not_entryBusy
    (early : depth < target) :
    ¬ EntryBusy setup (state.growTable table (digit vaddr depth) fresh rest)
      vaddr target := by
  rintro ⟨entry, found, valid⟩
  obtain ⟨reached, walk, _⟩ :=
    (attachable.entryAt_of_leaf_or_target sound early valid (.inr rfl)).mp found
  obtain ⟨next, nextWalk⟩ :=
    TreeSound.tableAt_some_of_le walk (Nat.succ_le_of_lt early)
  rw [sound.tableAt_succ attachable.walk,
    childOf_of_invalid attachable.unused] at nextWalk
  cases nextWalk

include attachable sound in
theorem dataKept :
    DataKept state (state.growTable table (digit vaddr depth) fresh rest) := by
  refine
    { mem := ?_
      tables := ?_
      free := ?_ }
  · intro pfn notTable notFree
    have notHere : pfn ≠ table := by
      rintro rfl
      exact notTable (sound.mem_tables attachable.walk)
    have notFresh : pfn ≠ fresh := by
      rintro rfl
      exact notFree attachable.isFree
    funext slot
    rw [PgtblState.growTable, mem_setEntry_of_ne fun here => notHere here.1]
    exact congrFun (Function.update_of_ne notFresh ..) slot
  · intro pfn known
    rcases List.mem_cons.mp known with rfl | older
    · exact .inr attachable.isFree
    · exact .inl older
  · intro pfn known
    rw [attachable.free]
    exact List.mem_cons_of_mem fresh known

end Attachable

namespace MapRun

variable {setup : PgtblSetup}

/-- A walk of the writer keeps the tree. -/
theorem treeSound
    (run : MapRun setup vaddr target pte depth state result after)
    (sound : TreeSound setup state)
    (valid : pteIsValid pte = true)
    (leaf : pteIsLeaf pte = true) :
    TreeSound setup after := by
  induction run with
  | busy =>
      exact sound.visit _
  | mapped walk unused =>
      exact (sound.visit _).mapLeaf walk unused valid leaf
  | noMemory =>
      exact sound.visit _
  | follow _ _ _ _ inductionHypothesis =>
      exact inductionHypothesis (sound.visit _)
  | attach _ attachable _ inductionHypothesis =>
      exact inductionHypothesis (attachable.treeSound (sound.visit _))

/-- An entry in use ends the walk with `EBUSY`, and nothing is written. -/
theorem eq_of_busy
    (run : MapRun setup vaddr target pte depth state result after)
    (sound : TreeSound setup state)
    (busy : EntryBusy setup state vaddr target) :
    result = .error .ebusy ∧
      ∃ visited, after = { state with visited := visited } := by
  obtain ⟨entry, ⟨reached, busyWalk, holds⟩, valid⟩ := busy
  induction run with
  | busy =>
      exact ⟨rfl, _, rfl⟩
  | mapped walk unused =>
      rw [walk] at busyWalk
      cases busyWalk
      rw [holds, valid] at unused
      cases unused
  | noMemory early walk unused =>
      obtain ⟨next, nextWalk⟩ :=
        TreeSound.tableAt_some_of_le busyWalk (Nat.succ_le_of_lt early)
      rw [sound.tableAt_succ walk, childOf_of_invalid unused] at nextWalk
      cases nextWalk
  | follow _ _ _ _ inductionHypothesis =>
      obtain ⟨isBusy, visited, same⟩ :=
        inductionHypothesis (sound.visit _) busyWalk holds
      exact ⟨isBusy, visited, same⟩
  | @attach state after result depth table _ _ early attachable =>
      obtain ⟨next, nextWalk⟩ :=
        TreeSound.tableAt_some_of_le busyWalk (Nat.succ_le_of_lt early)
      have walk : tableAt setup state vaddr depth = some table :=
        attachable.walk
      have unused : pteIsValid (state.mem table (digit vaddr depth)) = false :=
        attachable.unused
      rw [sound.tableAt_succ walk, childOf_of_invalid unused] at nextWalk
      cases nextWalk

/-- The walk reports `EBUSY` only for an entry in use. -/
theorem busy_of_eq
    (run : MapRun setup vaddr target pte depth state (.error .ebusy) after)
    (sound : TreeSound setup state) :
    EntryBusy setup state vaddr target := by
  generalize outcome : (Except.error Errno.ebusy : Except Errno Unit) = result
    at run
  induction run with
  | busy walk used =>
      exact ⟨_, ⟨_, walk, rfl⟩, used⟩
  | mapped =>
      cases outcome
  | noMemory =>
      cases outcome
  | follow _ _ _ _ inductionHypothesis =>
      exact inductionHypothesis (sound.visit _) outcome
  | @attach state after result depth table fresh rest early attachable later
      inductionHypothesis =>
      have visited := sound.visit table
      exact absurd (inductionHypothesis (attachable.treeSound visited) outcome)
        (attachable.not_entryBusy visited early)

/-- A walk that succeeds maps the page and touches no other leaf. -/
theorem pageMapped
    (run : MapRun setup vaddr target pte depth state (.ok ()) after)
    (sound : TreeSound setup state)
    (valid : pteIsValid pte = true)
    (leaf : pteIsLeaf pte = true) :
    PageMapped setup vaddr target pte state after := by
  generalize outcome : (Except.ok () : Except Errno Unit) = result at run
  induction run with
  | busy =>
      cases outcome
  | @mapped state table walk unused =>
      have visited := sound.visit table
      refine
        { unused := ?_
          leaf := fun same =>
            ⟨entryAt_mapLeaf_same visited walk unused leaf same, valid, leaf⟩
          others := fun different _ _ =>
            entryAt_mapLeaf_other visited walk unused leaf different }
      rintro ⟨entry, ⟨reached, busyWalk, holds⟩, isValid⟩
      rw [walk] at busyWalk
      cases busyWalk
      rw [holds, isValid] at unused
      cases unused
  | noMemory =>
      cases outcome
  | follow _ _ _ _ inductionHypothesis =>
      have mapped := inductionHypothesis (sound.visit _) outcome
      exact
        { unused := mapped.unused
          leaf := mapped.leaf
          others := mapped.others }
  | @attach state after result depth table fresh rest early attachable later
      inductionHypothesis =>
      have visited := sound.visit table
      have mapped :=
        inductionHypothesis (attachable.treeSound visited) outcome
      refine
        { unused := ?_
          leaf := mapped.leaf
          others := fun different isValid either =>
            (mapped.others different isValid either).trans
              (attachable.entryAt_of_leaf_or_target visited early isValid
                either) }
      rintro ⟨entry, found, isValid⟩
      exact mapped.unused
        ⟨entry,
          (attachable.entryAt_of_leaf_or_target visited early isValid
            (.inr rfl)).mpr found,
          isValid⟩

/-- A walk that ran out of memory left an unused entry on its way. -/
theorem unused_of_noMemory
    (run : MapRun setup vaddr target pte depth state (.error .enomem) after)
    (sound : TreeSound setup state) :
    ∃ level table,
      tableAt setup after vaddr level = some table ∧
        pteIsValid (after.mem table (digit vaddr level)) = false := by
  generalize outcome : (Except.error Errno.enomem : Except Errno Unit) = result
    at run
  induction run with
  | busy =>
      cases outcome
  | mapped =>
      cases outcome
  | noMemory _ walk unused =>
      exact ⟨_, _, walk, unused⟩
  | follow _ _ _ _ inductionHypothesis =>
      exact inductionHypothesis (sound.visit _) outcome
  | attach _ attachable _ inductionHypothesis =>
      exact inductionHypothesis (attachable.treeSound (sound.visit _)) outcome

theorem visitsSound
    (run : MapRun setup vaddr target pte depth state result after)
    (sound : TreeSound setup state)
    (visits : VisitsSound state) :
    VisitsSound after := by
  induction run with
  | busy walk =>
      exact visits.visit (sound.mem_tables walk)
  | mapped walk =>
      exact visits.visit (sound.mem_tables walk)
  | noMemory _ walk =>
      exact visits.visit (sound.mem_tables walk)
  | follow _ walk _ _ inductionHypothesis =>
      exact inductionHypothesis (sound.visit _)
        (visits.visit (sound.mem_tables walk))
  | attach _ attachable _ inductionHypothesis =>
      exact inductionHypothesis (attachable.treeSound (sound.visit _))
        (visits.visit (sound.mem_tables attachable.walk))

/-- A walk writes to tables and to the pages it takes for tables. -/
theorem dataKept
    (run : MapRun setup vaddr target pte depth state result after)
    (sound : TreeSound setup state) :
    DataKept state after := by
  induction run with
  | busy =>
      exact DataKept.visit _ _
  | @mapped state table walk unused =>
      refine
        { mem := ?_
          tables := fun _ => .inl
          free := fun _ => id }
      intro pfn notTable _
      have notHere : pfn ≠ table := by
        rintro rfl
        exact notTable (sound.mem_tables walk)
      exact Function.update_of_ne notHere ..
  | noMemory =>
      exact DataKept.visit _ _
  | follow _ _ _ _ inductionHypothesis =>
      have kept := inductionHypothesis (sound.visit _)
      exact
        { mem := kept.mem
          tables := kept.tables
          free := kept.free }
  | @attach state after result depth table fresh rest early attachable later
      inductionHypothesis =>
      have visited := sound.visit table
      have kept :=
        (attachable.dataKept visited).trans
          (inductionHypothesis (attachable.treeSound visited))
      exact
        { mem := kept.mem
          tables := kept.tables
          free := kept.free }

end MapRun

/-- Collecting the tables of an address stops the kernel at an unused entry. -/
theorem collectTables_unused
    {lvl level bottom : Nat}
    (upper : List (Nat × Nat))
    (sound : TreeSound setup state)
    (walk : tableAt setup state vaddr depth = some table)
    (levels : depth + lvl = pgtblLvlNr)
    (reach : depth ≤ level)
    (bottomWalk : tableAt setup state vaddr level = some bottom)
    (unused : pteIsValid (state.mem bottom (digit vaddr level)) = false) :
    collectTables state.mem vaddr lvl table upper = none := by
  induction lvl generalizing depth table upper with
  | zero =>
      rfl
  | succ lvl inductionHypothesis =>
      have levelNr : pgtblLvlNr = 3 := rfl
      have index : pgtblCalcIndexVal vaddr lvl = digit vaddr depth := by
        rw [digit, show lvl = 2 - depth by omega]
      simp only [collectTables, index]
      rcases Nat.eq_or_lt_of_le reach with rfl | deeper
      · rw [walk] at bottomWalk
        cases bottomWalk
        rw [unused, if_neg Bool.false_ne_true]
      · -- the walk goes on, so the entry refers to a table
        obtain ⟨next, nextWalk⟩ :=
          TreeSound.tableAt_some_of_le bottomWalk deeper
        have refers := nextWalk
        rw [sound.tableAt_succ walk] at refers
        obtain ⟨valid, notLeaf, frame⟩ := childOf_eq_some.mp refers
        have lower := sound.depth_lt nextWalk
        have notLowest : ¬ lvl = 0 := by omega
        rw [valid, if_pos rfl, notLeaf, frame,
          if_neg (not_or.mpr ⟨notLowest, Bool.false_ne_true⟩)]
        exact inductionHypothesis _ nextWalk (by omega) deeper

/-- The page sizes that a request can select, by the depth of their leaves. -/
def targetSize (target : Nat) : Nat :=
  pgtblCalcPagesize (2 - target)

/-- Mapping one aligned page walks from the base, and memory does not run out. -/
theorem mapVaddrToPaddr_run
    {paddr prot flags : Nat}
    (sound : TreeSound setup state)
    (targetBound : target ≤ 2)
    (alignedVaddr : vaddr % targetSize target = 0)
    (alignedPaddr : paddr % targetSize target = 0)
    (asked : prot &&& vmProtMask ≠ 0 ∨ EntryBusy setup state vaddr target)
    (noLarger :
      ∀ level < target, ∀ entry, ¬ LeafAt setup state vaddr level entry)
    (mapped :
      mapVaddrToPaddr setup state vaddr paddr prot flags (targetSize target) =
        some (result, after)) :
    result ≠ .error .enomem ∧
      MapRun setup vaddr target (leafPte prot flags paddr) 0 state result
        after := by
  have isAligned :
      ∀ size, targetSize target = size →
        (aligned vaddr size && aligned paddr size) = true := by
    rintro size rfl
    simp [aligned, alignedVaddr, alignedPaddr]
  unfold mapVaddrToPaddr at mapped
  split_ifs at mapped with large medium small
  · simp [isAligned _ large.1] at large
  · simp [isAligned _ medium.1] at medium
  · simp [isAligned _ small.1] at small
  · cases looped :
        mapLoop setup vaddr paddr prot flags (targetSize target) pgtblLvlNr
          setup.base state with
    | none =>
        rw [looped] at mapped
        cases mapped
    | some outcome =>
        obtain ⟨loopResult, loopAfter⟩ := outcome
        have run :=
          mapLoop_run sound
            (show tableAt setup state vaddr 0 = some setup.base from rfl)
            (Nat.zero_add _) targetBound (Nat.zero_le _) noLarger looped
        rw [looped] at mapped
        by_cases outOfMemory : loopResult = .error .enomem
        · -- the removal after a failed walk meets the unused entry and stops
          subst outOfMemory
          have wanted : prot &&& vmProtMask ≠ 0 := by
            rcases asked with wanted | busy
            · exact wanted
            · cases (run.eq_of_busy sound busy).1
          obtain ⟨valid, leaf, _⟩ := leafPte_attributes prot flags paddr
          have loopSound := run.treeSound sound valid (leaf.mpr wanted)
          obtain ⟨level, bottom, walk, unused⟩ := run.unused_of_noMemory sound
          have stops :=
            collectTables_unused [] loopSound
              (show tableAt setup loopAfter vaddr 0 = some setup.base from rfl)
              (Nat.zero_add _) (Nat.zero_le _) walk unused
          simp only [removeTableReference, stops, Option.map_none] at mapped
          cases mapped
        · have kept : some (loopResult, loopAfter) = some (result, after) := by
            rw [← mapped]
            split
            · rename_i same
              cases same
              exact absurd rfl outOfMemory
            · rfl
          cases kept
          exact ⟨outOfMemory, run⟩

end RiscvWorkshop.Pgtbl
