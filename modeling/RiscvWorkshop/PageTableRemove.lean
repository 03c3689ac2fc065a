import Mathlib
import RiscvWorkshop.PageTableSteps

namespace RiscvWorkshop.Pgtbl

open RadixWalk

/-!
# Removing pages

The remover collects the tables above a leaf and clears their entries from the
leaf upwards.  It stops at the first table that keeps an entry, and before that
it frees each table that the entry just cleared referred to.
-/

variable {setup : PgtblSetup}
variable {state after : PgtblState}
variable {vaddr depth table idx pte : Nat}

/-! ## Work on other pages -/

/-- The rest of the kernel works on pages that are no tables. -/
structure OtherWork (before after : PgtblState) : Prop where
  tables : after.tables = before.tables
  nrPages : after.nrPages = before.nrPages
  visited : after.visited = before.visited
  mem : ∀ table ∈ before.tables, after.mem table = before.mem table
  usecnt : ∀ table ∈ before.tables, after.usecnt table = before.usecnt table
  freeNodup : after.free.Nodup
  freeFresh :
    ∀ pfn ∈ after.free,
      pfn ∉ before.tables ∧ after.usecnt pfn = 0 ∧ pfn < 2 ^ 44

namespace OtherWork

variable (work : OtherWork state after)

include work in
theorem childIn : childIn after = childIn state := by
  funext table idx
  unfold Pgtbl.childIn
  rw [work.tables]
  by_cases known : table ∈ state.tables ∧ idx < pgtblEntriesNr
  · rw [if_pos known, if_pos known, work.mem table known.1]
  · rw [if_neg known, if_neg known]

include work in
theorem validSlots
    (member : table ∈ state.tables) :
    validSlots setup after table = validSlots setup state table := by
  rw [Pgtbl.validSlots, Pgtbl.validSlots, work.mem table member]

include work in
theorem treeSound
    (sound : TreeSound setup state) :
    TreeSound setup after := by
  refine
    { base := work.tables ▸ sound.base
      nodup := work.tables ▸ sound.nodup
      pages := by rw [work.nrPages, work.tables, sound.pages]
      counted := ?_
      closed := ?_
      oneParent := work.childIn ▸ sound.oneParent
      depth := fun vaddr =>
        (tableAt_congr work.childIn vaddr pgtblLvlNr).trans (sound.depth vaddr)
      inheritedUsed := fun inherited =>
        (congrArg pteIsValid (congrFun (work.mem _ sound.base) _)).trans
          (sound.inheritedUsed inherited)
      freeNodup := work.freeNodup
      freeFresh := ?_ }
  · intro table member
    rw [work.tables] at member
    rw [work.usecnt table member, work.validSlots member,
      sound.counted table member]
  · intro table idx below holds
    rw [work.childIn] at holds
    rw [work.tables]
    exact sound.closed holds
  · intro pfn free
    rw [work.tables]
    exact work.freeFresh pfn free

include work in
/-- The walks find the same entries. -/
theorem entryAt
    (sound : TreeSound setup state) :
    EntryAt setup after vaddr depth pte ↔
      EntryAt setup state vaddr depth pte := by
  unfold EntryAt
  rw [tableAt_congr work.childIn]
  constructor
  · rintro ⟨table, walk, holds⟩
    rw [work.mem table (sound.mem_tables walk)] at holds
    exact ⟨table, walk, holds⟩
  · rintro ⟨table, walk, holds⟩
    rw [← work.mem table (sound.mem_tables walk)] at holds
    exact ⟨table, walk, holds⟩

end OtherWork

/-- Dropping a user of a page that is no table is work on other pages. -/
theorem decPageUseCount_otherWork
    {pfn : Nat}
    {freed : Bool}
    (sound : TreeSound setup state)
    (notTable : pfn ∉ state.tables)
    (bound : pfn < 2 ^ 44)
    (dropped : decPageUseCount state pfn = some (freed, after)) :
    OtherWork state after := by
  have tableNe : ∀ table ∈ state.tables, table ≠ pfn := by
    rintro table member rfl
    exact notTable member
  simp only [decPageUseCount] at dropped
  split_ifs at dropped with negative last
  · -- the last user returns the page
    cases dropped
    have notFree : pfn ∉ state.free := by
      intro free
      have unused := (sound.freeFresh pfn free).2.1
      omega
    refine
      { tables := List.erase_of_not_mem notTable
        nrPages := rfl
        visited := rfl
        mem := fun _ _ => rfl
        usecnt := fun table member =>
          Function.update_of_ne (tableNe table member) ..
        freeNodup :=
          List.nodup_append'.mpr
            ⟨sound.freeNodup, List.nodup_singleton pfn,
              List.disjoint_singleton.mpr notFree⟩
        freeFresh := ?_ }
    intro page free
    rcases List.mem_append.mp free with older | new
    · obtain ⟨pageNotTable, unused, small⟩ := sound.freeFresh page older
      have different : page ≠ pfn := fun same => notFree (same ▸ older)
      exact ⟨pageNotTable, (Function.update_of_ne different ..).trans unused,
        small⟩
    · obtain rfl := List.mem_singleton.mp new
      exact ⟨notTable, (Function.update_self ..).trans last, bound⟩
  · cases dropped
    have notFree : pfn ∉ state.free := by
      intro free
      have unused := (sound.freeFresh pfn free).2.1
      omega
    refine
      { tables := rfl
        nrPages := rfl
        visited := rfl
        mem := fun _ _ => rfl
        usecnt := fun table member =>
          Function.update_of_ne (tableNe table member) ..
        freeNodup := sound.freeNodup
        freeFresh := ?_ }
    intro page free
    obtain ⟨pageNotTable, unused, small⟩ := sound.freeFresh page free
    have different : page ≠ pfn := fun same => notFree (same ▸ free)
    exact ⟨pageNotTable, (Function.update_of_ne different ..).trans unused,
      small⟩

/-! ## Clearing one entry -/

/-- Clear an entry and drop the count of its table. -/
def PgtblState.clearEntry (state : PgtblState) (table idx : Nat) : PgtblState :=
  state.setEntry table idx 0 (state.usecnt table - 1)

/-- Return the table that the cleared entry referred to, if there is one. -/
def PgtblState.release (state : PgtblState) : Option Nat → PgtblState
  | none => state
  | some low => state.dropTable low

/--
What the remover is about to clear: a leaf, or the reference to a table that it
has emptied.
-/
structure Clearable
    (setup : PgtblSetup)
    (state : PgtblState)
    (vaddr depth table : Nat)
    (low : Option Nat) : Prop where
  walk : tableAt setup state vaddr depth = some table
  used : digit vaddr depth ∈ validSlots setup state table
  refers : childOf (state.mem table (digit vaddr depth)) = low
  emptied : ∀ below, low = some below → validSlots setup state below = ∅

namespace Clearable

variable {low : Option Nat}
variable (clearable : Clearable setup state vaddr depth table low)
variable (sound : TreeSound setup state)

include clearable sound in
theorem clearEntry_sound :
    TreeSound setup (state.clearEntry table (digit vaddr depth)) :=
  sound.setEntry_clear (sound.mem_tables clearable.walk) clearable.used

include clearable sound in
theorem childIn_clearEntry
    (other slot : Nat) :
    childIn (state.clearEntry table (digit vaddr depth)) other slot =
      if other = table ∧ slot = digit vaddr depth then
        none
      else
        childIn state other slot := by
  rw [PgtblState.clearEntry,
    childIn_setEntry (sound.mem_tables clearable.walk) (digit_lt vaddr depth),
    childOf_of_invalid pteIsValid_zero]

include clearable sound in
theorem childIn_eq_low : childIn state table (digit vaddr depth) = low :=
  (if_pos ⟨sound.mem_tables clearable.walk, digit_lt vaddr depth⟩).trans
    clearable.refers

include clearable sound in
/-- The table to free is an empty table below the base that nothing refers to. -/
theorem low_facts
    {below : Nat}
    (isLow : low = some below) :
    below ∈ state.tables ∧ below ≠ setup.base ∧ below < 2 ^ 44 ∧
      below ≠ table ∧
      validSlots setup (state.clearEntry table (digit vaddr depth)) below = ∅ ∧
      ∀ other slot,
        childIn (state.clearEntry table (digit vaddr depth)) other slot ≠
          some below := by
  have child := (clearable.childIn_eq_low sound).trans isLow
  have notTable : below ≠ table := by
    rintro rfl
    have used := clearable.used
    rw [clearable.emptied _ isLow] at used
    exact absurd used (Finset.notMem_empty _)
  refine ⟨sound.closed child, ?_, ?_, notTable, ?_, ?_⟩
  · rintro rfl
    exact sound.oneParent.rootless _ _ child
  · obtain ⟨_, _, frame⟩ := childOf_eq_some.mp (clearable.refers.trans isLow)
    rw [← frame]
    exact ppnMask_and_lt _
  · rw [PgtblState.clearEntry, validSlots_setEntry_of_ne notTable]
    exact clearable.emptied _ isLow
  · intro other slot holds
    rw [clearable.childIn_clearEntry sound] at holds
    split_ifs at holds with here
    exact here (sound.oneParent.unique holds child)

include clearable sound in
theorem treeSound :
    TreeSound setup
      ((state.clearEntry table (digit vaddr depth)).release low) := by
  have cleared := clearable.clearEntry_sound sound
  cases isLow : low with
  | none =>
      exact cleared
  | some below =>
      obtain ⟨member, notBase, bound, _, empty, orphan⟩ :=
        clearable.low_facts sound isLow
      exact cleared.dropTable member notBase bound empty orphan

include clearable sound in
theorem childIn_release :
    childIn ((state.clearEntry table (digit vaddr depth)).release low) =
      childIn (state.clearEntry table (digit vaddr depth)) := by
  cases isLow : low with
  | none =>
      rfl
  | some below =>
      obtain ⟨_, notBase, _, _, empty, _⟩ := clearable.low_facts sound isLow
      exact childIn_dropTable (clearable.clearEntry_sound sound) empty notBase

include clearable sound in
/-- The walks to every table but the freed one go on. -/
theorem tableAt_iff
    {other level reached : Nat} :
    tableAt setup ((state.clearEntry table (digit vaddr depth)).release low)
        other level = some reached ↔
      tableAt setup state other level = some reached ∧
        low ≠ some reached := by
  rw [tableAt_congr (clearable.childIn_release sound)]
  have fewer :
      ∀ {node slot below},
        childIn (state.clearEntry table (digit vaddr depth)) node slot =
            some below →
          childIn state node slot = some below := by
    intro node slot below holds
    rw [clearable.childIn_clearEntry sound] at holds
    split_ifs at holds with here
    exact holds
  constructor
  · intro walk
    refine ⟨walkTo_mono fewer walk, ?_⟩
    intro isLow
    obtain ⟨_, notBase, _, _, _, orphan⟩ := clearable.low_facts sound isLow
    exact tableAt_ne_orphan notBase orphan walk rfl
  · rintro ⟨walk, notLow⟩
    have child := clearable.childIn_eq_low sound
    cases isLow : low with
    | none =>
        -- a leaf was cleared, so the children are the same
        rw [isLow] at child
        apply walkTo_mono _ walk
        intro node slot below holds
        rw [clearable.childIn_clearEntry sound]
        split_ifs with here
        · rw [here.1, here.2, child] at holds
          cases holds
        · exact holds
    | some below =>
        rw [isLow] at child notLow
        have childless : ∀ slot, childIn state below slot = none := by
          intro slot
          obtain ⟨_, notBase, _, _, _, _⟩ := clearable.low_facts sound isLow
          cases holds : childIn state below slot with
          | none =>
              rfl
          | some next =>
              obtain ⟨_, slotBound, refers⟩ := childIn_eq_some.mp holds
              have used : slot ∈ validSlots setup state below :=
                mem_validSlots.mpr
                  ⟨slotBound, TreeSound.ownSlot_of_ne notBase slot,
                    (childOf_eq_some.mp refers).1⟩
              rw [clearable.emptied below isLow] at used
              exact absurd used (Finset.notMem_empty slot)
        apply walkTo_shrunk _ childless _ walk
        · intro node slot next holds different
          rw [clearable.childIn_clearEntry sound]
          split_ifs with here
          · rw [here.1, here.2, child] at holds
            cases holds
            exact absurd rfl different
          · exact holds
        · rintro rfl
          exact notLow rfl

include clearable in
/-- Other tables keep their entries. -/
theorem validSlots_of_ne
    {other : Nat}
    (different : other ≠ table) :
    validSlots setup
        ((state.clearEntry table (digit vaddr depth)).release low) other =
      validSlots setup state other := by
  have same :
      validSlots setup
          ((state.clearEntry table (digit vaddr depth)).release low) other =
        validSlots setup (state.clearEntry table (digit vaddr depth)) other := by
    cases low <;> rfl
  rw [same, PgtblState.clearEntry, validSlots_setEntry_of_ne different]

theorem validSlots_self :
    validSlots setup
        ((state.clearEntry table (digit vaddr depth)).release low) table =
      (validSlots setup state table).erase (digit vaddr depth) := by
  have same :
      validSlots setup
          ((state.clearEntry table (digit vaddr depth)).release low) table =
        validSlots setup (state.clearEntry table (digit vaddr depth)) table := by
    cases low <;> rfl
  rw [same, PgtblState.clearEntry, validSlots_setEntry_invalid pteIsValid_zero]

end Clearable

/-! ## The way up -/

/-- The tables on the way to a depth, lowest first, with their levels. -/
def tablesTo
    (setup : PgtblSetup)
    (state : PgtblState)
    (vaddr : Nat) :
    Nat → List (Nat × Nat)
  | 0 => []
  | depth + 1 =>
      match tableAt setup state vaddr depth with
      | some table => (2 - depth, table) :: tablesTo setup state vaddr depth
      | none => []

theorem tablesTo_succ
    (walk : tableAt setup state vaddr depth = some table) :
    tablesTo setup state vaddr (depth + 1) =
      (2 - depth, table) :: tablesTo setup state vaddr depth := by
  rw [tablesTo, walk]

theorem tablesTo_congr
    (same :
      ∀ level < depth,
        tableAt setup after vaddr level = tableAt setup state vaddr level) :
    tablesTo setup after vaddr depth = tablesTo setup state vaddr depth := by
  induction depth with
  | zero =>
      rfl
  | succ depth inductionHypothesis =>
      rw [tablesTo, tablesTo, same depth (Nat.lt_succ_self depth),
        inductionHypothesis fun level bound =>
          same level (Nat.lt_succ_of_lt bound)]

/-- Collecting the tables of an address ends at its leaf. -/
theorem collectTables_leaf
    {lvl : Nat}
    {tables : List (Nat × Nat)}
    (sound : TreeSound setup state)
    (walk : tableAt setup state vaddr depth = some table)
    (levels : depth + lvl = pgtblLvlNr)
    (collected :
      collectTables state.mem vaddr lvl table
        (tablesTo setup state vaddr depth) = some tables) :
    ∃ level entry,
      LeafAt setup state vaddr level entry ∧
        tables = tablesTo setup state vaddr (level + 1) := by
  induction lvl generalizing depth table with
  | zero =>
      cases collected
  | succ lvl inductionHypothesis =>
      have levelNr : pgtblLvlNr = 3 := rfl
      have lvlDepth : lvl = 2 - depth := by omega
      have index : pgtblCalcIndexVal vaddr lvl = digit vaddr depth := by
        rw [digit, lvlDepth]
      have known : (lvl, table) :: tablesTo setup state vaddr depth =
          tablesTo setup state vaddr (depth + 1) := by
        rw [tablesTo_succ walk, lvlDepth]
      simp only [collectTables, index, known] at collected
      cases valid : pteIsValid (state.mem table (digit vaddr depth)) with
      | false =>
          simp [valid] at collected
      | true =>
          have next := sound.tableAt_succ walk
          cases leaf : pteIsLeaf (state.mem table (digit vaddr depth)) with
          | true =>
              simp only [valid, leaf, if_true, or_true] at collected
              cases collected
              exact ⟨depth, _, ⟨⟨table, walk, rfl⟩, valid, leaf⟩, rfl⟩
          | false =>
              rw [childOf_eq_some.mpr ⟨valid, leaf, rfl⟩] at next
              have lower := sound.depth_lt next
              have notLowest : ¬ lvl = 0 := by omega
              simp only [valid, leaf, notLowest, if_true, or_self,
                Bool.false_eq_true, if_false] at collected
              exact inductionHypothesis next (by omega) collected

/-- What the remover can do from a depth upwards. -/
inductive ClearRun
    (setup : PgtblSetup)
    (vaddr : Nat) :
    Nat → Option Nat → PgtblState → PgtblState → Prop where
  | stop
      {state : PgtblState}
      {depth table : Nat}
      {low : Option Nat}
      (clearable : Clearable setup state vaddr depth table low)
      (shared :
        ((validSlots setup state table).erase
          (digit vaddr depth)).Nonempty) :
      ClearRun setup vaddr depth low state
        (state.clearEntry table (digit vaddr depth))
  | top
      {state : PgtblState}
      {table : Nat}
      {low : Option Nat}
      (clearable : Clearable setup state vaddr 0 table low) :
      ClearRun setup vaddr 0 low state
        ((state.clearEntry table (digit vaddr 0)).release low)
  | up
      {state after : PgtblState}
      {depth table : Nat}
      {low : Option Nat}
      (clearable : Clearable setup state vaddr (depth + 1) table low)
      (emptied :
        (validSlots setup state table).erase (digit vaddr (depth + 1)) = ∅)
      (later :
        ClearRun setup vaddr depth (some table)
          ((state.clearEntry table (digit vaddr (depth + 1))).release low)
          after) :
      ClearRun setup vaddr (depth + 1) low state after

/-- Dropping the count of a table with an entry never frees the table. -/
theorem decPageUseCount_clear
    {used : Nat}
    (sound : TreeSound setup state)
    (member : table ∈ state.tables)
    (isUsed : used ∈ validSlots setup state table) :
    decPageUseCount (state.writePte table used 0) table =
      some (false, state.clearEntry table used) := by
  have counted := sound.counted table member
  have positive := Finset.card_pos.mpr ⟨used, isUsed⟩
  have count :
      (state.writePte table used 0).usecnt table = state.usecnt table := rfl
  simp only [decPageUseCount, count]
  rw [if_neg (by omega), if_neg (by omega)]
  rfl

/-- Freeing the table below returns its page. -/
theorem freeLowTable_eq
    {low : Nat}
    (sound : TreeSound setup state)
    (member : low ∈ state.tables)
    (empty : validSlots setup state low = ∅)
    (freed : freeLowTable setup state low = some after) :
    after = state.dropTable low := by
  have counted := sound.counted low member
  rw [empty, Finset.card_empty] at counted
  have last : state.usecnt low - 1 = 0 := by
    rw [counted]
    rfl
  unfold freeLowTable at freed
  split_ifs at freed
  simp only [decPageUseCount, last] at freed
  cases freed
  rfl

/-- After the entry of a table is cleared, the entry above is next. -/
theorem Clearable.above
    {low : Option Nat}
    (clearable : Clearable setup state vaddr (depth + 1) table low)
    (sound : TreeSound setup state)
    (own : setup.OwnAddr vaddr)
    (emptied :
      (validSlots setup state table).erase (digit vaddr (depth + 1)) = ∅) :
    ∃ parent,
      tableAt setup state vaddr depth = some parent ∧
        Clearable setup
          ((state.clearEntry table (digit vaddr (depth + 1))).release low)
          vaddr depth parent (some table) := by
  obtain ⟨parent, parentWalk, holds⟩ :=
    walkTo_succ_eq_some.mp clearable.walk
  have child := childIn_eq_some.mp holds
  have notParent : parent ≠ table := by
    rintro rfl
    have sameDepth :=
      (walkTo_meet sound.oneParent parentWalk clearable.walk).1
    omega
  -- the walk to the parent is shorter than the walk to the freed table
  have notLow : low ≠ some parent := by
    intro isLow
    have next := sound.tableAt_succ clearable.walk
    rw [clearable.refers, isLow] at next
    have sameDepth := (walkTo_meet sound.oneParent parentWalk next).1
    omega
  have kept :
      ((state.clearEntry table (digit vaddr (depth + 1))).release low).mem
          parent = state.mem parent := by
    funext slot
    have same :
        ((state.clearEntry table (digit vaddr (depth + 1))).release low).mem =
          (state.clearEntry table (digit vaddr (depth + 1))).mem := by
      cases low <;> rfl
    rw [same]
    exact mem_setEntry_of_ne fun here => notParent here.1
  refine ⟨parent, parentWalk, ?_⟩
  refine
    { walk := (clearable.tableAt_iff sound).mpr ⟨parentWalk, notLow⟩
      used := ?_
      refers := ?_
      emptied := ?_ }
  · rw [clearable.validSlots_of_ne notParent, mem_validSlots]
    exact ⟨digit_lt vaddr depth, sound.ownSlot own parentWalk,
      (childOf_eq_some.mp child.2.2).1⟩
  · rw [kept]
    exact child.2.2
  · rintro below same
    cases same
    rw [Clearable.validSlots_self, emptied]

/-- The use count of a table after its entry was cleared. -/
theorem Clearable.usecnt_clearEntry
    {low : Option Nat}
    (clearable : Clearable setup state vaddr depth table low)
    (sound : TreeSound setup state) :
    (state.clearEntry table (digit vaddr depth)).usecnt table =
      1 + ((validSlots setup state table).erase (digit vaddr depth)).card := by
  have counted := sound.counted table (sound.mem_tables clearable.walk)
  rw [← Finset.card_erase_add_one clearable.used] at counted
  have written :
      (state.clearEntry table (digit vaddr depth)).usecnt table =
        state.usecnt table - 1 :=
    Function.update_self ..
  rw [written, counted]
  push_cast
  ring

/-- The tables above a table are still on the way when it was emptied. -/
theorem Clearable.tablesTo_release
    {low : Option Nat}
    (clearable : Clearable setup state vaddr depth table low)
    (sound : TreeSound setup state) :
    tablesTo setup ((state.clearEntry table (digit vaddr depth)).release low)
        vaddr depth =
      tablesTo setup state vaddr depth := by
  apply tablesTo_congr
  intro level bound
  obtain ⟨reached, walk⟩ :=
    TreeSound.tableAt_some_of_le clearable.walk (Nat.le_of_lt bound)
  rw [walk, clearable.tableAt_iff sound]
  refine ⟨walk, fun isLow => ?_⟩
  have next := sound.tableAt_succ clearable.walk
  rw [clearable.refers, isLow] at next
  have sameDepth := (walkTo_meet sound.oneParent walk next).1
  omega

/-- One round upwards stops at a table with another entry, or goes on. -/
theorem clearTables_round
    {low : Option Nat}
    {upper : List (Nat × Nat)}
    (sound : TreeSound setup state)
    (clearable : Clearable setup state vaddr depth table low)
    (cleared :
      clearTables setup vaddr low.isNone ((2 - depth, table) :: upper) state =
        some after) :
    (((validSlots setup state table).erase (digit vaddr depth)).Nonempty ∧
        after = state.clearEntry table (digit vaddr depth)) ∨
      ((validSlots setup state table).erase (digit vaddr depth) = ∅ ∧
        clearTables setup vaddr false upper
          ((state.clearEntry table (digit vaddr depth)).release low) =
            some after) := by
  have member := sound.mem_tables clearable.walk
  have used := clearable.used
  have count := clearable.usecnt_clearEntry sound
  have zero : ptePaddrToPpn 0 = 0 := by decide
  have index : pgtblCalcIndexVal vaddr (2 - depth) = digit vaddr depth := rfl
  simp only [clearTables, index, zero,
    decPageUseCount_clear sound member used] at cleared
  split_ifs at cleared with known shared lowest
  · -- the table keeps an entry
    left
    cases cleared
    refine ⟨Finset.card_pos.mp ?_, rfl⟩
    omega
  · right
    refine ⟨Finset.card_eq_zero.mp (by omega), ?_⟩
    rw [Option.isNone_iff_eq_none.mp lowest]
    exact cleared
  · right
    refine ⟨Finset.card_eq_zero.mp (by omega), ?_⟩
    obtain ⟨below, isLow⟩ :=
      Option.isSome_iff_exists.mp
        (Option.isSome_iff_ne_none.mpr fun isNone =>
          lowest (Option.isNone_iff_eq_none.mpr isNone))
    obtain ⟨belowMember, _, _, _, empty, _⟩ :=
      clearable.low_facts sound isLow
    obtain ⟨_, _, frame⟩ := childOf_eq_some.mp (clearable.refers.trans isLow)
    rw [frame] at cleared
    cases freed :
        freeLowTable setup (state.clearEntry table (digit vaddr depth)) below with
    | none =>
        rw [freed] at cleared
        cases cleared
    | some middle =>
        rw [freed] at cleared
        have dropped :=
          freeLowTable_eq (clearable.clearEntry_sound sound) belowMember empty
            freed
        rw [isLow, PgtblState.release, ← dropped]
        exact cleared

/-- The loop upwards does what such a loop can do. -/
theorem clearTables_run
    {low : Option Nat}
    (sound : TreeSound setup state)
    (own : setup.OwnAddr vaddr)
    (clearable : Clearable setup state vaddr depth table low)
    (cleared :
      clearTables setup vaddr low.isNone
        (tablesTo setup state vaddr (depth + 1)) state = some after) :
    ClearRun setup vaddr depth low state after := by
  induction depth generalizing state table low with
  | zero =>
      rw [tablesTo_succ clearable.walk] at cleared
      rcases clearTables_round sound clearable cleared with
        ⟨shared, rfl⟩ | ⟨_, rest⟩
      · exact .stop clearable shared
      · cases rest
        exact .top clearable
  | succ depth inductionHypothesis =>
      rw [tablesTo_succ clearable.walk] at cleared
      rcases clearTables_round sound clearable cleared with
        ⟨shared, rfl⟩ | ⟨emptied, rest⟩
      · exact .stop clearable shared
      · obtain ⟨parent, _, above⟩ := clearable.above sound own emptied
        apply ClearRun.up clearable emptied
        apply inductionHypothesis (clearable.treeSound sound) above
        rw [clearable.tablesTo_release sound]
        exact rest

theorem ClearRun.treeSound
    {low : Option Nat}
    (run : ClearRun setup vaddr depth low state after)
    (sound : TreeSound setup state) :
    TreeSound setup after := by
  induction run with
  | stop clearable =>
      exact clearable.clearEntry_sound sound
  | top clearable =>
      exact clearable.treeSound sound
  | up clearable _ _ inductionHypothesis =>
      exact inductionHypothesis (clearable.treeSound sound)

/-- The remover clears the entries of an own address from its leaf upwards. -/
theorem removeTableReference_run
    (sound : TreeSound setup state)
    (own : setup.OwnAddr vaddr)
    (removed : removeTableReference setup state vaddr = some after) :
    ∃ level entry,
      LeafAt setup state vaddr level entry ∧
        ClearRun setup vaddr level none state after := by
  unfold removeTableReference at removed
  cases collected :
      collectTables state.mem vaddr pgtblLvlNr setup.base [] with
  | none =>
      rw [collected] at removed
      cases removed
  | some tables =>
      rw [collected] at removed
      obtain ⟨level, entry, leafAt, rfl⟩ :=
        collectTables_leaf sound
          (show tableAt setup state vaddr 0 = some setup.base from rfl)
          (Nat.zero_add _) collected
      obtain ⟨⟨table, walk, holds⟩, valid, leaf⟩ := leafAt
      have clearable : Clearable setup state vaddr level table none :=
        { walk := walk
          used :=
            mem_validSlots.mpr
              ⟨digit_lt vaddr level, sound.ownSlot own walk, by
                rw [holds, valid]⟩
          refers := by
            rw [holds, childOf_of_leaf leaf]
          emptied := fun _ impossible => nomatch impossible }
      exact ⟨level, entry, ⟨⟨table, walk, holds⟩, valid, leaf⟩,
        clearTables_run sound own clearable removed⟩

/-! ## Removing a range -/

theorem OtherWork.refl
    (sound : TreeSound setup state) :
    OtherWork state state :=
  { tables := rfl
    nrPages := rfl
    visited := rfl
    mem := fun _ _ => rfl
    usecnt := fun _ _ => rfl
    freeNodup := sound.freeNodup
    freeFresh := sound.freeFresh }

/-- A managed mapping of an address maps a page that is no table. -/
def TargetApart
    (setup : PgtblSetup)
    (state : PgtblState)
    (unmanaged : Bool)
    (vaddr : Nat) : Prop :=
  unmanaged = false →
    ∀ level entry,
      LeafAt setup state vaddr level entry → pteToPfn entry ∉ state.tables

theorem mappingOf_pfn
    (entry lvl : Nat) :
    (mappingOf entry lvl).paddr >>> pageShift = pteToPfn entry := by
  rw [mappingOf, pteToPaddr, Nat.shiftLeft_shiftRight]

/-- Dropping the mapped page is work on other pages. -/
theorem releaseMapped_otherWork
    {unmanaged : Bool}
    (sound : TreeSound setup state)
    (apart : TargetApart setup state unmanaged vaddr)
    (released :
      releaseMapped setup state unmanaged
        (halPgtblExtract setup state.mem vaddr) = some after) :
    OtherWork state after := by
  cases extracted : halPgtblExtract setup state.mem vaddr with
  | error =>
      rw [extracted] at released
      cases released
      exact OtherWork.refl sound
  | ok mapping =>
      obtain ⟨level, entry, leaf, rfl⟩ :=
        leafAt_of_halPgtblExtract sound extracted
      rw [extracted] at released
      simp only [releaseMapped, mappingOf_pfn] at released
      split_ifs at released with isUnmanaged known
      · cases released
        exact OtherWork.refl sound
      · obtain ⟨⟨freed, dropped⟩, decreased, rfl⟩ :=
          Option.map_eq_some_iff.mp released
        exact decPageUseCount_otherWork sound
          (apart (Bool.not_eq_true _ ▸ isUnmanaged) level entry leaf)
          (ppnMask_and_lt _) decreased

/-- What removing one page can do. -/
theorem removePage_run
    {unmanaged : Bool}
    (sound : TreeSound setup state)
    (own : setup.OwnAddr vaddr)
    (apart : TargetApart setup state unmanaged vaddr)
    (removed : removePage setup state unmanaged vaddr = some after) :
    ∃ middle level entry,
      OtherWork state middle ∧
        LeafAt setup state vaddr level entry ∧
        ClearRun setup vaddr level none middle after := by
  unfold removePage at removed
  cases released :
      releaseMapped setup state unmanaged
        (halPgtblExtract setup state.mem vaddr) with
  | none =>
      rw [released] at removed
      cases removed
  | some middle =>
      rw [released] at removed
      have work := releaseMapped_otherWork sound apart released
      obtain ⟨level, entry, ⟨found, valid, leaf⟩, run⟩ :=
        removeTableReference_run (work.treeSound sound) own removed
      exact ⟨middle, level, entry, work,
        ⟨(work.entryAt sound).mp found, valid, leaf⟩, run⟩

/--
A condition on the pages that `hal_pgtbl_remove` removes, each on the state
that the removals before it left.
-/
def RoundsMeet
    (condition : PgtblState → Bool → Nat → Prop)
    (setup : PgtblSetup)
    (unmanaged : Bool)
    (vaddrEnd : Nat) :
    Nat → Nat → Nat → PgtblState → Prop
  | 0, _, _, _ => True
  | rounds + 1, curVaddr, pgsize, state =>
      vaddrEnd > curVaddr →
        condition state unmanaged curVaddr ∧
          ∀ after,
            removePage setup state unmanaged curVaddr = some after →
              let pgsize :=
                pgsizeAfter pgsize (halPgtblExtract setup state.mem curVaddr)
              RoundsMeet condition setup unmanaged vaddrEnd rounds
                ((curVaddr + pgsize) % addressSpace) pgsize after

/-- The condition on all pages of one call of `hal_pgtbl_remove`. -/
def RemoveMeets
    (condition : PgtblState → Bool → Nat → Prop)
    (setup : PgtblSetup)
    (state : PgtblState)
    (vaddr flags len : Nat) : Prop :=
  RoundsMeet condition setup (flags &&& vmFlagsUnmanaged != 0)
    ((vaddr + len) % addressSpace) removeRounds vaddr pageSize state

theorem roundsMeet_of_le
    {condition : PgtblState → Bool → Nat → Prop}
    {unmanaged : Bool}
    {vaddrEnd rounds curVaddr pgsize : Nat}
    (done : vaddrEnd ≤ curVaddr) :
    RoundsMeet condition setup unmanaged vaddrEnd rounds curVaddr pgsize
      state := by
  cases rounds with
  | zero =>
      trivial
  | succ rounds =>
      intro more
      exact absurd done (Nat.not_le_of_lt more)

/-- A call that removes one page has one condition. -/
theorem RemoveMeets.of_one
    {condition : PgtblState → Bool → Nat → Prop}
    {flags len : Nat}
    (here : condition state (flags &&& vmFlagsUnmanaged != 0) vaddr)
    (onePage :
      len ≤ pgsizeAfter pageSize (halPgtblExtract setup state.mem vaddr))
    (noWrap :
      vaddr + pgsizeAfter pageSize (halPgtblExtract setup state.mem vaddr) <
        addressSpace) :
    RemoveMeets condition setup state vaddr flags len := by
  intro _
  refine ⟨here, fun after _ => roundsMeet_of_le ?_⟩
  rw [Nat.mod_eq_of_lt noWrap, Nat.mod_eq_of_lt (by omega)]
  omega

/-- What the removal of each page keeps is kept by the whole call. -/
theorem halPgtblRemove_preserves
    {condition : PgtblState → Bool → Nat → Prop}
    {flags len : Nat}
    (property : PgtblState → Prop)
    (preserved :
      ∀ {before unmanaged vaddr after},
        property before →
        condition before unmanaged vaddr →
        removePage setup before unmanaged vaddr = some after →
        property after)
    (initially : property state)
    (meets : RemoveMeets condition setup state vaddr flags len)
    (removed : halPgtblRemove setup state vaddr flags len = some after) :
    property after := by
  have loop :
      ∀ {unmanaged vaddrEnd rounds curVaddr pgsize before},
        property before →
        RoundsMeet condition setup unmanaged vaddrEnd rounds curVaddr pgsize
          before →
        removeLoop setup unmanaged vaddrEnd rounds curVaddr pgsize before =
          some after →
        property after := by
    intro unmanaged vaddrEnd rounds
    induction rounds with
    | zero =>
        intro curVaddr pgsize before _ _ impossible
        cases impossible
    | succ rounds inductionHypothesis =>
        intro curVaddr pgsize before holds meets looped
        rw [removeLoop] at looped
        split_ifs at looped with more
        · obtain ⟨here, later⟩ := meets more
          cases stepped : removePage setup before unmanaged curVaddr with
          | none =>
              rw [stepped] at looped
              cases looped
          | some middle =>
              rw [stepped] at looped
              exact inductionHypothesis (preserved holds here stepped)
                (later middle stepped) looped
        · cases looped
          exact holds
  simp only [halPgtblRemove] at removed
  split_ifs at removed
  · exact loop initially meets removed
  · cases removed
    exact initially

end RiscvWorkshop.Pgtbl
