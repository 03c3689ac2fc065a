import Mathlib
import RiscvWorkshop.PageTableRange
import RiscvWorkshop.PageTableRemove

namespace RiscvWorkshop.Pgtbl

open RadixWalk

/-!
# No table is kept for nothing

A page table is tidy when each of its tables is on the way to some own address
and, apart from the base, holds an entry.  Mapping keeps it tidy.  Removing
keeps it tidy unless the way upwards stops above a table that was emptied.
-/

variable {setup : PgtblSetup}
variable {state after : PgtblState}
variable {vaddr depth target table pte : Nat}
variable {low : Option Nat}
variable {result : Except Errno Unit}

/-- A table of this page table that walks from the base reach. -/
def Reached
    (setup : PgtblSetup)
    (state : PgtblState)
    (table : Nat) : Prop :=
  table = setup.base ∨
    ∃ vaddr depth,
      setup.OwnAddr vaddr ∧ tableAt setup state vaddr depth = some table

/-- Every table is reached, and holds an entry unless it is the pending one. -/
structure TidyBut
    (setup : PgtblSetup)
    (pending : Option Nat)
    (state : PgtblState) : Prop where
  kernelKept : ∀ table ∈ setup.kernelTables, table ∈ state.tables
  kernelApart :
    ∀ {table}, Reached setup state table → table ∉ setup.kernelTables
  reached :
    ∀ table ∈ state.tables,
      table ∈ setup.kernelTables ∨ Reached setup state table
  used :
    ∀ {table},
      Reached setup state table →
        table = setup.base ∨ pending = some table ∨
          (validSlots setup state table).Nonempty

/-- No table is pending. -/
abbrev Tidy (setup : PgtblSetup) (state : PgtblState) : Prop :=
  TidyBut setup none state

theorem Reached.of_walk
    (own : setup.OwnAddr vaddr)
    (walk : tableAt setup state vaddr depth = some table) :
    Reached setup state table :=
  .inr ⟨vaddr, depth, own, walk⟩

theorem Reached.mem_tables
    (reached : Reached setup state table)
    (sound : TreeSound setup state) :
    table ∈ state.tables := by
  rcases reached with rfl | ⟨_, _, _, walk⟩
  · exact sound.base
  · exact sound.mem_tables walk

theorem reached_congr
    (same : childIn after = childIn state) :
    Reached setup after table ↔ Reached setup state table := by
  unfold Reached
  simp only [tableAt_congr same]

namespace TidyBut

variable {pending : Option Nat}

/-- A change that keeps children and tables keeps what is reached. -/
theorem of_sameChildren
    {other : Option Nat}
    (tidy : TidyBut setup pending state)
    (sameChildren : childIn after = childIn state)
    (sameTables : after.tables = state.tables)
    (used :
      ∀ {table},
        Reached setup state table →
        table ≠ setup.base →
          other = some table ∨ (validSlots setup after table).Nonempty) :
    TidyBut setup other after := by
  refine
    { kernelKept := fun table known => sameTables ▸ tidy.kernelKept table known
      kernelApart := fun reached =>
        tidy.kernelApart ((reached_congr sameChildren).mp reached)
      reached := ?_
      used := ?_ }
  · intro table known
    rw [sameTables] at known
    exact (tidy.reached table known).imp_right
      (reached_congr sameChildren).mpr
  · intro table reached
    by_cases isBase : table = setup.base
    · exact .inl isBase
    · exact .inr (used ((reached_congr sameChildren).mp reached) isBase)

/-- Work on other pages does not touch the tables. -/
theorem otherWork
    (tidy : TidyBut setup pending state)
    (sound : TreeSound setup state)
    (work : OtherWork state after) :
    TidyBut setup pending after := by
  apply tidy.of_sameChildren work.childIn work.tables
  intro table reached notBase
  rw [work.validSlots (reached.mem_tables sound)]
  exact (tidy.used reached).resolve_left notBase

theorem of_visited
    (tidy : TidyBut setup pending state)
    (visited : List (Nat × Bool)) :
    TidyBut setup pending { state with visited := visited } :=
  tidy.of_sameChildren rfl rfl fun reached notBase =>
    (tidy.used reached).resolve_left notBase

end TidyBut

/-! ## Mapping -/

namespace TidyBut

/-- A pending table with an entry is no longer pending. -/
theorem settle
    (tidy : TidyBut setup (some table) state)
    (nonempty : (validSlots setup state table).Nonempty)
    (pending : Option Nat) :
    TidyBut setup pending state := by
  apply tidy.of_sameChildren rfl rfl
  intro other reached notBase
  right
  rcases (tidy.used reached).resolve_left notBase with isPending | used
  · cases isPending
    exact nonempty
  · exact used

/-- The base may be pending. -/
theorem base
    (tidy : Tidy setup state) :
    TidyBut setup (some setup.base) state :=
  tidy.of_sameChildren rfl rfl fun reached notBase =>
    .inr (((tidy.used reached).resolve_left notBase).resolve_left
      fun impossible => nomatch impossible)

/-- A leaf in the pending table ends the work on it. -/
theorem mapLeaf
    (tidy : TidyBut setup (some table) state)
    (sound : TreeSound setup state)
    (own : setup.OwnAddr vaddr)
    (walk : tableAt setup state vaddr depth = some table)
    (unused : pteIsValid (state.mem table (digit vaddr depth)) = false)
    (valid : pteIsValid pte = true)
    (leaf : pteIsLeaf pte = true) :
    Tidy setup (state.mapLeaf table (digit vaddr depth) pte) := by
  have sameChildren := childIn_mapLeaf sound walk unused leaf
  apply tidy.of_sameChildren sameChildren rfl
  intro other reached notBase
  right
  by_cases same : other = table
  · subst same
    exact ⟨digit vaddr depth, mem_validSlots.mpr
      ⟨digit_lt vaddr depth, sound.ownSlot own walk, by
        rw [PgtblState.mapLeaf, mem_setEntry_self, valid]⟩⟩
  · rw [PgtblState.mapLeaf, validSlots_setEntry_of_ne same]
    exact ((tidy.used reached).resolve_left notBase).resolve_left fun pending =>
      same (Option.some.inj pending).symm

/-- A new table takes over from the pending one. -/
theorem growTable
    {fresh : Nat}
    {rest : List Nat}
    (tidy : TidyBut setup (some table) state)
    (sound : TreeSound setup state)
    (own : setup.OwnAddr vaddr)
    (attachable : Attachable setup state vaddr depth table fresh rest) :
    TidyBut setup (some fresh)
      (state.growTable table (digit vaddr depth) fresh rest) := by
  have notTable := (sound.freeFresh fresh attachable.isFree).1
  have grown :
      ∀ {other},
        Reached setup (state.growTable table (digit vaddr depth) fresh rest)
            other →
          Reached setup state other ∨ other = fresh := by
    rintro other (isBase | ⟨address, level, ownAddress, walk⟩)
    · exact .inl (.inl isBase)
    · exact (attachable.tableAt_grown sound walk).imp_left
        (Reached.of_walk ownAddress)
  refine
    { kernelKept := fun other known =>
        List.mem_cons_of_mem fresh (tidy.kernelKept other known)
      kernelApart := ?_
      reached := ?_
      used := ?_ }
  · intro other reached known
    rcases grown reached with old | rfl
    · exact tidy.kernelApart old known
    · exact notTable (tidy.kernelKept other known)
  · intro other known
    rcases List.mem_cons.mp known with rfl | older
    · exact .inr (Reached.of_walk own (attachable.tableAt_succ sound))
    · refine (tidy.reached other older).imp_right ?_
      rintro (isBase | ⟨address, level, ownAddress, walk⟩)
      · exact .inl isBase
      · exact Reached.of_walk ownAddress (attachable.tableAt_mono sound walk)
  · intro other reached
    rcases grown reached with old | rfl
    · by_cases same : other = table
      · subst same
        right
        right
        exact ⟨digit vaddr depth, mem_validSlots.mpr
          ⟨digit_lt vaddr depth, sound.ownSlot own attachable.walk, by
            rw [PgtblState.growTable, mem_setEntry_self]
            exact (childOf_eq_some.mp (attachable.refers sound)).1⟩⟩
      · rcases tidy.used old with isBase | isPending | used
        · exact .inl isBase
        · exact absurd (Option.some.inj isPending).symm same
        · right
          right
          have notFresh : other ≠ fresh := by
            rintro rfl
            exact notTable (old.mem_tables sound)
          rw [PgtblState.growTable, validSlots_setEntry_of_ne same,
            validSlots_addTable_of_ne notFresh]
          exact used
    · exact .inr (.inl rfl)

end TidyBut

/-- A walk of the writer keeps the page table tidy. -/
theorem MapRun.tidy
    (run : MapRun setup vaddr target pte depth state result after)
    (sound : TreeSound setup state)
    (own : setup.OwnAddr vaddr)
    (valid : pteIsValid pte = true)
    (leaf : pteIsLeaf pte = true)
    (memory : result ≠ .error .enomem)
    (walk : tableAt setup state vaddr depth = some table)
    (tidy : TidyBut setup (some table) state) :
    Tidy setup after := by
  have settled :
      ∀ {state depth table},
        TreeSound setup state →
        tableAt setup state vaddr depth = some table →
        pteIsValid (state.mem table (digit vaddr depth)) = true →
        (validSlots setup state table).Nonempty :=
    fun sound walk used =>
      ⟨_, mem_validSlots.mpr ⟨digit_lt _ _, sound.ownSlot own walk, used⟩⟩
  induction run generalizing table with
  | busy busyWalk used =>
      rw [busyWalk] at walk
      cases walk
      exact (tidy.settle (settled sound busyWalk used) none).of_visited _
  | @mapped state other mapWalk unused =>
      rw [mapWalk] at walk
      cases walk
      exact (tidy.of_visited _).mapLeaf (sound.visit other) own mapWalk unused
        valid leaf
  | noMemory =>
      exact absurd rfl memory
  | @follow state after result depth other below early mapWalk next later
      inductionHypothesis =>
      rw [mapWalk] at walk
      cases walk
      have refers := next
      rw [sound.tableAt_succ mapWalk] at refers
      have used := (childOf_eq_some.mp refers).1
      exact inductionHypothesis (sound.visit other) memory next
        ((tidy.settle (settled sound mapWalk used) (some below)).of_visited _)
  | @attach state after result depth other fresh rest early attachable later
      inductionHypothesis =>
      have mapWalk : tableAt setup state vaddr depth = some other :=
        attachable.walk
      rw [mapWalk] at walk
      cases walk
      have visited := sound.visit other
      exact inductionHypothesis (attachable.treeSound visited) memory
        (attachable.tableAt_succ visited)
        ((tidy.of_visited _).growTable visited own attachable)

/-- Mapping a range of own addresses keeps the page table tidy. -/
theorem EnterRun.tidy
    {pages paddr prot flags : Nat}
    (run :
      EnterRun setup target prot flags pages vaddr paddr state result after)
    (sound : TreeSound setup state)
    (inSpace : pages ≠ 0 → vaddr + pages * targetSize target < addressSpace)
    (own :
      ∀ page < pages, setup.OwnAddr (vaddr + page * targetSize target))
    (tidy : Tidy setup state) :
    Tidy setup after := by
  induction run with
  | done =>
      exact tidy
  | @failed pages vaddr paddr state after code memory asked run =>
      have first := own 0 (Nat.succ_pos pages)
      rw [Nat.zero_mul, Nat.add_zero] at first
      obtain ⟨valid, leaf, _⟩ := leafPte_attributes prot flags paddr
      rcases asked with wanted | busy
      · exact run.tidy sound first valid (leaf.mpr wanted)
          (fun same => memory (Except.error.inj same)) rfl tidy.base
      · obtain ⟨_, visited, rfl⟩ := run.eq_of_busy sound busy
        exact tidy.of_visited visited
  | @next pages vaddr paddr state middle after result asked run later
      inductionHypothesis =>
      have first := own 0 (Nat.succ_pos pages)
      rw [Nat.zero_mul, Nat.add_zero] at first
      obtain ⟨valid, leaf, _⟩ := leafPte_attributes prot flags paddr
      have space := inSpace (Nat.succ_ne_zero pages)
      have split :
          (pages + 1) * targetSize target =
            pages * targetSize target + targetSize target := by
        ring
      have next :
          (vaddr + targetSize target) % addressSpace =
            vaddr + targetSize target :=
        Nat.mod_eq_of_lt (by omega)
      rw [next] at inductionHypothesis
      apply inductionHypothesis (run.treeSound sound valid (leaf.mpr asked))
      · intro _
        omega
      · intro page bound
        have later := own (page + 1) (Nat.succ_lt_succ bound)
        have shift :
            vaddr + (page + 1) * targetSize target =
              vaddr + targetSize target + page * targetSize target := by
          ring
        rwa [shift] at later
      · exact run.tidy sound first valid (leaf.mpr asked)
          (fun impossible => nomatch impossible) rfl tidy.base

/-! ## Removing -/

/-- The base is no longer pending once the work is done. -/
theorem TidyBut.settleBase
    (tidy : TidyBut setup (some setup.base) state) :
    Tidy setup state :=
  tidy.of_sameChildren rfl rfl fun reached notBase =>
    .inr (((tidy.used reached).resolve_left notBase).resolve_left
      fun isBase => notBase (Option.some.inj isBase).symm)

/-- A cleared entry makes its table pending, and the freed table is gone. -/
theorem Clearable.tidy
    (clearable : Clearable setup state vaddr depth table low)
    (sound : TreeSound setup state)
    (own : setup.OwnAddr vaddr)
    (tidy : TidyBut setup low state) :
    TidyBut setup (some table)
      ((state.clearEntry table (digit vaddr depth)).release low) := by
  have tables :
      ∀ other,
        other ∈ ((state.clearEntry table
              (digit vaddr depth)).release low).tables ↔
          other ∈ state.tables ∧ low ≠ some other := by
    intro other
    cases isLow : low with
    | none =>
        exact ⟨fun known => ⟨known, nofun⟩, And.left⟩
    | some below =>
        have cleared := clearable.clearEntry_sound sound
        refine (mem_dropTable cleared).trans (and_congr_right fun _ => ?_)
        exact ⟨fun different same => different (Option.some.inj same).symm,
          fun different same => different (congrArg some same.symm)⟩
  have reachedIff :
      ∀ {other},
        Reached setup
            ((state.clearEntry table (digit vaddr depth)).release low) other →
          Reached setup state other ∧ low ≠ some other := by
    rintro other (rfl | ⟨address, level, ownAddress, walk⟩)
    · refine ⟨.inl rfl, fun isLow => ?_⟩
      exact (clearable.low_facts sound isLow).2.1 rfl
    · obtain ⟨oldWalk, notLow⟩ := (clearable.tableAt_iff sound).mp walk
      exact ⟨Reached.of_walk ownAddress oldWalk, notLow⟩
  refine
    { kernelKept := ?_
      kernelApart := fun reached => tidy.kernelApart (reachedIff reached).1
      reached := ?_
      used := ?_ }
  · intro other known
    refine (tables other).mpr ⟨tidy.kernelKept other known, fun isLow => ?_⟩
    -- the freed table was on an own walk
    have next := sound.tableAt_succ clearable.walk
    rw [clearable.refers, isLow] at next
    exact tidy.kernelApart (Reached.of_walk own next) known
  · intro other known
    obtain ⟨older, notLow⟩ := (tables other).mp known
    refine (tidy.reached other older).imp_right ?_
    rintro (isBase | ⟨address, level, ownAddress, walk⟩)
    · exact .inl isBase
    · exact Reached.of_walk ownAddress
        ((clearable.tableAt_iff sound).mpr ⟨walk, notLow⟩)
  · intro other reached
    obtain ⟨oldReached, notLow⟩ := reachedIff reached
    rcases tidy.used oldReached with isBase | isLow | used
    · exact .inl isBase
    · exact absurd isLow notLow
    · by_cases same : other = table
      · exact .inr (.inl (congrArg some same.symm))
      · right
        right
        rw [clearable.validSlots_of_ne same]
        exact used

/-- Each table on the way to a depth holds only the entry of the way. -/
def OnlyWay
    (setup : PgtblSetup)
    (state : PgtblState)
    (vaddr depth : Nat) : Prop :=
  ∀ level ≤ depth, ∀ table,
    tableAt setup state vaddr level = some table →
      validSlots setup state table = {digit vaddr level}

/-- A way with no other entries is cleared up to the base. -/
theorem ClearRun.tidy_of_onlyWay
    (run : ClearRun setup vaddr depth low state after)
    (sound : TreeSound setup state)
    (own : setup.OwnAddr vaddr)
    (only : OnlyWay setup state vaddr depth)
    (tidy : TidyBut setup low state) :
    Tidy setup after := by
  induction run with
  | @stop state depth table low clearable shared =>
      rw [only depth le_rfl table clearable.walk, Finset.erase_singleton]
        at shared
      exact absurd shared Finset.not_nonempty_empty
  | @top state table low clearable =>
      have isBase : setup.base = table := Option.some.inj clearable.walk
      subst isBase
      exact (clearable.tidy sound own tidy).settleBase
  | @up state after depth table low clearable emptied later
      inductionHypothesis =>
      refine inductionHypothesis (clearable.treeSound sound) ?_
        (clearable.tidy sound own tidy)
      intro level bound other walk
      obtain ⟨oldWalk, _⟩ := (clearable.tableAt_iff sound).mp walk
      have different : other ≠ table := by
        rintro rfl
        have sameDepth :=
          (walkTo_meet sound.oneParent oldWalk clearable.walk).1
        omega
      rw [clearable.validSlots_of_ne different]
      exact only level (Nat.le_succ_of_le bound) other oldWalk

/--
Removing the page of an address frees every table that it empties: the page
hangs below the base, its table keeps another entry, or the way from the base
holds no other entry.
-/
def FreesEmptied
    (setup : PgtblSetup)
    (state : PgtblState)
    (vaddr : Nat) : Prop :=
  ∀ level entry,
    LeafAt setup state vaddr level entry →
      level = 0 ∨
        (∃ table,
          tableAt setup state vaddr level = some table ∧
            1 < (validSlots setup state table).card) ∨
        OnlyWay setup state vaddr level

/-- Under that condition removing a leaf keeps the page table tidy. -/
theorem ClearRun.tidy
    {level entry : Nat}
    (run : ClearRun setup vaddr level none state after)
    (sound : TreeSound setup state)
    (own : setup.OwnAddr vaddr)
    (leaf : LeafAt setup state vaddr level entry)
    (frees : FreesEmptied setup state vaddr)
    (tidy : Tidy setup state) :
    Tidy setup after := by
  rcases frees level entry leaf with rfl | ⟨table, walk, shared⟩ | only
  · cases run with
    | @stop _ _ table _ clearable shared =>
        refine (clearable.tidy sound own tidy).settle ?_ none
        rw [Clearable.validSlots_self]
        exact shared
    | @top _ table _ clearable =>
        have isBase : setup.base = table := Option.some.inj clearable.walk
        subst isBase
        exact (clearable.tidy sound own tidy).settleBase
  · have keeps :
        ((validSlots setup state table).erase
          (digit vaddr level)).Nonempty := by
      rw [← Finset.card_pos]
      have atLeast :
          (validSlots setup state table).card - 1 ≤
            ((validSlots setup state table).erase (digit vaddr level)).card :=
        Finset.pred_card_le_card_erase
      omega
    cases run with
    | @stop _ _ other _ clearable shared =>
        refine (clearable.tidy sound own tidy).settle ?_ none
        rw [Clearable.validSlots_self]
        exact shared
    | @top _ other _ clearable =>
        have isBase : setup.base = other := Option.some.inj clearable.walk
        subst isBase
        exact (clearable.tidy sound own tidy).settleBase
    | @up _ _ _ other _ clearable emptied later =>
        have sameTable := clearable.walk
        rw [walk] at sameTable
        cases sameTable
        rw [emptied] at keeps
        exact absurd keeps Finset.not_nonempty_empty
  · exact run.tidy_of_onlyWay sound own only tidy

/-- The condition does not depend on other pages. -/
theorem FreesEmptied.otherWork
    (frees : FreesEmptied setup state vaddr)
    (sound : TreeSound setup state)
    (work : OtherWork state after) :
    FreesEmptied setup after vaddr := by
  rintro level entry ⟨found, valid, leaf⟩
  rcases frees level entry ⟨(work.entryAt sound).mp found, valid, leaf⟩ with
    top | ⟨table, walk, shared⟩ | only
  · exact .inl top
  · right
    left
    refine ⟨table, (tableAt_congr work.childIn vaddr level).trans walk, ?_⟩
    rw [work.validSlots (sound.mem_tables walk)]
    exact shared
  · right
    right
    intro higher bound table walk
    rw [tableAt_congr work.childIn] at walk
    rw [work.validSlots (sound.mem_tables walk)]
    exact only higher bound table walk

/-! ## Tables and leaves -/

/-- Every choice of table indices is the choice of an address. -/
theorem exists_digits
    (index : Nat → Nat)
    (bound : ∀ depth, index depth < pgtblEntriesNr) :
    ∃ vaddr, ∀ depth ≤ 2, digit vaddr depth = index depth := by
  refine ⟨index 0 * 2 ^ 30 + index 1 * 2 ^ 21 + index 2 * 2 ^ 12, ?_⟩
  have top := bound 0
  have middle := bound 1
  have low := bound 2
  rw [pgtblEntriesNr] at top middle low
  intro depth depthBound
  rw [digit_eq depthBound]
  interval_cases depth <;> omega

/--
Below a reached table that is not the base some own address is mapped, whose
walk comes through the table.
-/
theorem Tidy.exists_leaf
    {vaddr depth table : Nat}
    (tidy : Tidy setup state)
    (sound : TreeSound setup state)
    (own : setup.OwnAddr vaddr)
    (below : 0 < depth)
    (walk : tableAt setup state vaddr depth = some table) :
    ∃ address level entry,
      setup.OwnAddr address ∧
        (∀ earlier < depth, digit address earlier = digit vaddr earlier) ∧
        depth ≤ level ∧ LeafAt setup state address level entry := by
  have depthBound := sound.depth_lt walk
  have levelNr : pgtblLvlNr = 3 := rfl
  obtain ⟨levels, sum⟩ : ∃ levels, depth + levels = pgtblLvlNr :=
    ⟨pgtblLvlNr - depth, by omega⟩
  induction levels generalizing vaddr depth table with
  | zero =>
      omega
  | succ levels inductionHypothesis =>
      have notBase : table ≠ setup.base := by
        rintro rfl
        have sameDepth :=
          (walkTo_meet sound.oneParent walk
            (show walkTo (childIn state) digit setup.base vaddr 0 = _ from
              rfl)).1
        omega
      obtain ⟨slot, used⟩ :=
        ((tidy.used (Reached.of_walk own walk)).resolve_left
          notBase).resolve_left nofun
      obtain ⟨slotBound, _, valid⟩ := mem_validSlots.mp used
      -- an address on the same way that selects this entry
      obtain ⟨address, digits⟩ :=
        exists_digits
          (fun level => if level = depth then slot else digit vaddr level)
          (by
            intro level
            split_ifs
            · exact slotBound
            · exact digit_lt vaddr level)
      have same :
          ∀ level < depth, digit address level = digit vaddr level := by
        intro level bound
        rw [digits level (by omega), if_neg (by omega)]
      have here : digit address depth = slot := by
        rw [digits depth (by omega), if_pos rfl]
      have addressWalk : tableAt setup state address depth = some table :=
        (walkTo_congr same).trans walk
      have addressOwn : setup.OwnAddr address := by
        rw [PgtblSetup.OwnAddr, same 0 below]
        exact own
      rw [← here] at valid
      cases leaf : pteIsLeaf (state.mem table (digit address depth)) with
      | true =>
          exact ⟨address, depth, _, addressOwn, same, le_rfl,
            ⟨table, addressWalk, rfl⟩, valid, leaf⟩
      | false =>
          have next := sound.tableAt_succ addressWalk
          rw [childOf_eq_some.mpr ⟨valid, leaf, rfl⟩] at next
          obtain ⟨lower, level, entry, lowerOwn, lowerSame, deep, lowerLeaf⟩ :=
            inductionHypothesis addressOwn (Nat.succ_pos depth) next
              (sound.depth_lt next) (by omega)
          refine ⟨lower, level, entry, lowerOwn, ?_, Nat.le_of_succ_le deep,
            lowerLeaf⟩
          intro earlier bound
          exact (lowerSame earlier (Nat.lt_succ_of_lt bound)).trans
            (same earlier bound)

end RiscvWorkshop.Pgtbl
