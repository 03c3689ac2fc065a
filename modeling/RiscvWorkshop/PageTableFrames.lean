import Mathlib
import RiscvWorkshop.PageTableRuns

namespace RiscvWorkshop.Pgtbl

open RadixWalk

/-!
# Page frames and leaves

Mapping a page takes free pages for tables, and removing a page returns them:
a page is a table or free before and after, and other pages keep their counts
and contents.  Removing a page takes its leaf away and no other, and two tidy
page tables with the same leaves have as many tables.
-/

variable {setup : PgtblSetup}
variable {state after : PgtblState}
variable {vaddr depth target table pte : Nat}
variable {low : Option Nat}
variable {result : Except Errno Unit}

/-- Pages go from the free pages to the tables and back, and no other page changes. -/
structure FramesKept (before after : PgtblState) : Prop where
  tables :
    ∀ pfn ∈ after.tables, pfn ∈ before.tables ∨ pfn ∈ before.free
  free : ∀ pfn ∈ after.free, pfn ∈ before.tables ∨ pfn ∈ before.free
  mem :
    ∀ pfn ∉ before.tables, pfn ∉ before.free → after.mem pfn = before.mem pfn
  usecnt :
    ∀ pfn ∉ before.tables, pfn ∉ before.free →
      after.usecnt pfn = before.usecnt pfn
  count :
    after.free.length + after.tables.length =
      before.free.length + before.tables.length

namespace FramesKept

theorem refl (state : PgtblState) : FramesKept state state :=
  { tables := fun _ => .inl
    free := fun _ => .inr
    mem := fun _ _ _ => rfl
    usecnt := fun _ _ _ => rfl
    count := rfl }

theorem of_visited
    (state : PgtblState)
    (visited : List (Nat × Bool)) :
    FramesKept state { state with visited := visited } :=
  { tables := fun _ => .inl
    free := fun _ => .inr
    mem := fun _ _ _ => rfl
    usecnt := fun _ _ _ => rfl
    count := rfl }

theorem visit
    (state : PgtblState)
    (table : Nat) :
    FramesKept state (state.visit table) :=
  of_visited state _

/-- A page that is no table and not free stays so. -/
theorem apart
    (kept : FramesKept state after)
    {pfn : Nat}
    (notTable : pfn ∉ state.tables)
    (notFree : pfn ∉ state.free) :
    pfn ∉ after.tables ∧ pfn ∉ after.free :=
  ⟨fun known => (kept.tables pfn known).elim notTable notFree,
    fun known => (kept.free pfn known).elim notTable notFree⟩

theorem trans
    {middle : PgtblState}
    (first : FramesKept state middle)
    (second : FramesKept middle after) :
    FramesKept state after :=
  { tables := fun pfn known =>
      (second.tables pfn known).elim (first.tables pfn) (first.free pfn)
    free := fun pfn known =>
      (second.free pfn known).elim (first.tables pfn) (first.free pfn)
    mem := fun pfn notTable notFree =>
      have apart := first.apart notTable notFree
      (second.mem pfn apart.1 apart.2).trans (first.mem pfn notTable notFree)
    usecnt := fun pfn notTable notFree =>
      have apart := first.apart notTable notFree
      (second.usecnt pfn apart.1 apart.2).trans
        (first.usecnt pfn notTable notFree)
    count := second.count.trans first.count }

/-- Writing an entry of a table and setting its count. -/
theorem setEntry
    {idx : Nat}
    (member : table ∈ state.tables)
    (pte : Nat)
    (count : Int) :
    FramesKept state (state.setEntry table idx pte count) := by
  have other : ∀ pfn ∉ state.tables, pfn ≠ table := by
    rintro pfn notTable rfl
    exact notTable member
  exact
    { tables := fun _ => .inl
      free := fun _ => .inr
      mem := fun pfn notTable _ =>
        Function.update_of_ne (other pfn notTable) ..
      usecnt := fun pfn notTable _ =>
        Function.update_of_ne (other pfn notTable) ..
      count := rfl }

end FramesKept

/-! ## Mapping -/

theorem Attachable.framesKept
    {fresh : Nat}
    {rest : List Nat}
    (attachable : Attachable setup state vaddr depth table fresh rest)
    (sound : TreeSound setup state) :
    FramesKept state
      (state.growTable table (digit vaddr depth) fresh rest) := by
  have isFree := attachable.isFree
  have added : FramesKept state (state.addTable fresh rest) := by
    have other : ∀ pfn ∉ state.free, pfn ≠ fresh := by
      rintro pfn notFree rfl
      exact notFree isFree
    refine
      { tables := ?_
        free := ?_
        mem := fun pfn _ notFree =>
          Function.update_of_ne (other pfn notFree) ..
        usecnt := fun pfn _ notFree =>
          Function.update_of_ne (other pfn notFree) ..
        count := ?_ }
    · intro pfn known
      rcases List.mem_cons.mp known with rfl | older
      · exact .inr isFree
      · exact .inl older
    · intro pfn known
      rw [attachable.free]
      exact .inr (List.mem_cons_of_mem fresh known)
    · rw [attachable.free]
      simp only [PgtblState.addTable, List.length_cons]
      omega
  have member : table ∈ (state.addTable fresh rest).tables :=
    List.mem_cons_of_mem fresh (sound.mem_tables attachable.walk)
  exact added.trans (FramesKept.setEntry member _ _)

theorem MapRun.framesKept
    (run : MapRun setup vaddr target pte depth state result after)
    (sound : TreeSound setup state) :
    FramesKept state after := by
  induction run with
  | busy =>
      exact FramesKept.visit _ _
  | @mapped state table walk =>
      have member : table ∈ (state.visit table).tables :=
        sound.mem_tables walk
      exact (FramesKept.visit state table).trans
        (FramesKept.setEntry member _ _)
  | noMemory =>
      exact FramesKept.visit _ _
  | @follow state _ _ _ table _ _ _ _ _ inductionHypothesis =>
      exact (FramesKept.visit state table).trans
        (inductionHypothesis (sound.visit table))
  | @attach state _ _ _ table _ _ _ attachable _ inductionHypothesis =>
      have visited := sound.visit table
      exact (FramesKept.visit state table).trans
        ((attachable.framesKept visited).trans
          (inductionHypothesis (attachable.treeSound visited)))

/-- Tables keep the entries that are in use. -/
def EntriesKept (before after : PgtblState) : Prop :=
  ∀ table ∈ before.tables,
    table ∈ after.tables ∧
      ∀ idx,
        pteIsValid (before.mem table idx) = true →
          after.mem table idx = before.mem table idx

theorem EntriesKept.refl (state : PgtblState) : EntriesKept state state :=
  fun _ known => ⟨known, fun _ _ => rfl⟩

theorem EntriesKept.trans
    {middle : PgtblState}
    (first : EntriesKept state middle)
    (second : EntriesKept middle after) :
    EntriesKept state after := by
  intro table known
  obtain ⟨middleKnown, same⟩ := first table known
  obtain ⟨afterKnown, later⟩ := second table middleKnown
  refine ⟨afterKnown, fun idx valid => ?_⟩
  have kept := same idx valid
  rw [later idx (kept ▸ valid), kept]

theorem MapRun.entriesKept
    (run : MapRun setup vaddr target pte depth state result after)
    (sound : TreeSound setup state) :
    EntriesKept state after := by
  induction run with
  | busy =>
      exact EntriesKept.refl _
  | @mapped state table walk unused =>
      intro other known
      refine ⟨known, fun idx valid => mem_setEntry_of_ne ?_⟩
      rintro ⟨rfl, rfl⟩
      rw [unused] at valid
      cases valid
  | noMemory =>
      exact EntriesKept.refl _
  | @follow state _ _ _ table _ _ _ _ _ inductionHypothesis =>
      exact inductionHypothesis (sound.visit table)
  | @attach state after _ depth table fresh rest _ attachable _
      inductionHypothesis =>
      have visited := sound.visit table
      have attached :
          EntriesKept (state.visit table)
            ((state.visit table).growTable table (digit vaddr depth) fresh
              rest) := by
        intro other known
        refine ⟨List.mem_cons_of_mem fresh known, fun idx valid => ?_⟩
        apply attachable.mem_of_ne visited known
        rintro ⟨rfl, rfl⟩
        rw [attachable.unused] at valid
        cases valid
      exact attached.trans
        (inductionHypothesis (attachable.treeSound visited))

/-- Walks go on through entries that are kept. -/
theorem EntriesKept.tableAt
    (kept : EntriesKept state after)
    (walk : tableAt setup state vaddr depth = some table) :
    tableAt setup after vaddr depth = some table := by
  refine walkTo_mono ?_ walk
  intro node slot below holds
  obtain ⟨known, bound, refers⟩ := childIn_eq_some.mp holds
  obtain ⟨stillKnown, same⟩ := kept node known
  refine childIn_eq_some.mpr ⟨stillKnown, bound, ?_⟩
  rw [same slot (childOf_eq_some.mp refers).1, refers]

/-! ## Removing -/

namespace Clearable

variable (clearable : Clearable setup state vaddr depth table low)
variable (sound : TreeSound setup state)

include clearable sound in
theorem framesKept :
    FramesKept state
      ((state.clearEntry table (digit vaddr depth)).release low) := by
  have cleared :
      FramesKept state (state.clearEntry table (digit vaddr depth)) :=
    FramesKept.setEntry (sound.mem_tables clearable.walk) _ _
  cases isLow : low with
  | none =>
      exact cleared
  | some below =>
      have member := (clearable.low_facts sound isLow).1
      have other : ∀ pfn ∉ state.tables, pfn ≠ below := by
        rintro pfn notTable rfl
        exact notTable member
      refine cleared.trans
        { tables := fun pfn known => .inl (List.mem_of_mem_erase known)
          free := ?_
          mem := fun _ _ _ => rfl
          usecnt := fun pfn notTable _ =>
            Function.update_of_ne (other pfn notTable) ..
          count := ?_ }
      · intro pfn known
        rcases List.mem_append.mp known with older | isBelow
        · exact .inr older
        · exact .inl (List.mem_singleton.mp isBelow ▸ member)
      · have length := List.length_erase_add_one member
        simp only [PgtblState.release, PgtblState.dropTable,
          PgtblState.clearEntry, PgtblState.setEntry, PgtblState.writePte,
          List.length_append, List.length_singleton]
        omega

include clearable sound in
/-- The leaves below the cleared entry are gone, and no others. -/
theorem leafAt
    {other level entry : Nat} :
    LeafAt setup ((state.clearEntry table (digit vaddr depth)).release low)
        other level entry ↔
      LeafAt setup state other level entry ∧
        ¬ SameEntry depth other vaddr := by
  have memory :
      ((state.clearEntry table (digit vaddr depth)).release low).mem =
        (state.clearEntry table (digit vaddr depth)).mem := by
    cases low <;> rfl
  constructor
  · rintro ⟨⟨reached, walk, holds⟩, valid, leaf⟩
    obtain ⟨oldWalk, notLow⟩ := (clearable.tableAt_iff sound).mp walk
    have different :
        ¬ (reached = table ∧ digit other level = digit vaddr depth) := by
      rintro ⟨rfl, sameSlot⟩
      rw [memory, sameSlot, PgtblState.clearEntry, mem_setEntry_self] at holds
      rw [← holds, pteIsValid_zero] at valid
      cases valid
    rw [memory, PgtblState.clearEntry, mem_setEntry_of_ne different] at holds
    refine ⟨⟨⟨reached, oldWalk, holds⟩, valid, leaf⟩, fun same => ?_⟩
    have tableWalk : tableAt setup state other depth = some table :=
      (tableAt_sameEntry same (Nat.le_succ depth)).trans clearable.walk
    rcases lt_trichotomy level depth with above | here | below
    · exact sound.not_leafAt_above tableWalk above
        ⟨⟨reached, oldWalk, holds⟩, valid, leaf⟩
    · subst here
      rw [oldWalk] at tableWalk
      exact different ⟨Option.some.inj tableWalk, same level le_rfl⟩
    · have next := sound.tableAt_succ tableWalk
      rw [same depth le_rfl, clearable.refers] at next
      obtain ⟨above, aboveWalk⟩ :=
        TreeSound.tableAt_some_of_le walk (Nat.succ_le_of_lt below)
      obtain ⟨oldAbove, notFreed⟩ :=
        (clearable.tableAt_iff sound).mp aboveWalk
      exact notFreed (next.symm.trans oldAbove)
  · rintro ⟨⟨⟨reached, walk, holds⟩, valid, leaf⟩, different⟩
    refine ⟨⟨reached, (clearable.tableAt_iff sound).mpr ⟨walk, ?_⟩, ?_⟩,
      valid, leaf⟩
    · intro isLow
      obtain ⟨_, notBase, _, _, _, _⟩ := clearable.low_facts sound isLow
      have used : digit other level ∈ validSlots setup state reached :=
        mem_validSlots.mpr
          ⟨digit_lt other level, TreeSound.ownSlot_of_ne notBase _,
            holds ▸ valid⟩
      rw [clearable.emptied reached isLow] at used
      exact absurd used (Finset.notMem_empty _)
    · rw [memory, PgtblState.clearEntry, mem_setEntry_of_ne]
      · exact holds
      · rintro ⟨rfl, sameSlot⟩
        obtain ⟨rfl, sameDigits⟩ :=
          walkTo_meet sound.oneParent walk clearable.walk
        apply different
        intro earlier bound
        rcases Nat.eq_or_lt_of_le bound with rfl | above
        · exact sameSlot
        · exact sameDigits earlier above

include clearable sound in
/-- Returning the table below changes no leaf. -/
theorem leafAt_release
    {other level entry : Nat} :
    LeafAt setup ((state.clearEntry table (digit vaddr depth)).release low)
        other level entry ↔
      LeafAt setup (state.clearEntry table (digit vaddr depth)) other level
        entry := by
  have memory :
      ((state.clearEntry table (digit vaddr depth)).release low).mem =
        (state.clearEntry table (digit vaddr depth)).mem := by
    cases low <;> rfl
  unfold LeafAt EntryAt
  rw [memory]
  simp only [tableAt_congr (clearable.childIn_release sound)]

end Clearable

namespace ClearRun

theorem framesKept
    (run : ClearRun setup vaddr depth low state after)
    (sound : TreeSound setup state) :
    FramesKept state after := by
  induction run with
  | @stop state depth table low clearable shared =>
      exact FramesKept.setEntry (sound.mem_tables clearable.walk) _ _
  | top clearable =>
      exact clearable.framesKept sound
  | up clearable _ _ inductionHypothesis =>
      exact (clearable.framesKept sound).trans
        (inductionHypothesis (clearable.treeSound sound))

/-- Removing a page takes the leaves of its entry away, and no others. -/
theorem leafAt
    (run : ClearRun setup vaddr depth low state after)
    (sound : TreeSound setup state)
    {other level entry : Nat} :
    LeafAt setup after other level entry ↔
      LeafAt setup state other level entry ∧
        ¬ SameEntry depth other vaddr := by
  induction run with
  | stop clearable shared =>
      exact (clearable.leafAt_release sound).symm.trans
        (clearable.leafAt sound)
  | top clearable =>
      exact clearable.leafAt sound
  | @up state after depth table low clearable emptied later
      inductionHypothesis =>
      rw [inductionHypothesis (clearable.treeSound sound),
        clearable.leafAt sound, and_assoc]
      refine and_congr_right fun leaf => ?_
      constructor
      · exact fun both => both.1
      · refine fun different => ⟨different, fun same => different ?_⟩
        -- the table below holds no other entry, so the leaf is in that one
        have walk : tableAt setup state other (depth + 1) = some table :=
          (tableAt_sameEntry same le_rfl).trans clearable.walk
        have notBase : table ≠ setup.base := by
          rintro rfl
          have sameDepth :=
            (walkTo_meet sound.oneParent clearable.walk
              (show walkTo (childIn state) digit setup.base vaddr 0 = _ from
                rfl)).1
          omega
        have busy : EntryBusy setup state other (depth + 1) := by
          obtain ⟨⟨reached, leafWalk, holds⟩, valid, isLeaf⟩ := leaf
          rcases lt_trichotomy level (depth + 1) with above | rfl | below
          · exact absurd ⟨⟨reached, leafWalk, holds⟩, valid, isLeaf⟩
              (sound.not_leafAt_above walk above)
          · exact ⟨entry, ⟨reached, leafWalk, holds⟩, valid⟩
          · exact sound.entryBusy_of_deeper leafWalk below
        obtain ⟨used, ⟨reached, usedWalk, holds⟩, valid⟩ := busy
        rw [walk] at usedWalk
        cases usedWalk
        have slot :
            digit other (depth + 1) ∈ validSlots setup state table :=
          mem_validSlots.mpr
            ⟨digit_lt other _, TreeSound.ownSlot_of_ne notBase _,
              holds ▸ valid⟩
        have sameSlot :
            digit other (depth + 1) = digit vaddr (depth + 1) := by
          by_contra notSame
          have kept := Finset.mem_erase.mpr ⟨notSame, slot⟩
          rw [emptied] at kept
          exact absurd kept (Finset.notMem_empty _)
        intro earlier bound
        rcases Nat.eq_or_lt_of_le bound with rfl | earlierBound
        · exact sameSlot
        · exact same earlier (Nat.lt_succ_iff.mp earlierBound)

/-- The entry of the base is the last one that the remover clears. -/
theorem eq_of_top
    (run : ClearRun setup vaddr depth none state after)
    (top : depth = 0)
    (walk : tableAt setup state vaddr depth = some table) :
    after = state.clearEntry table (digit vaddr depth) := by
  subst top
  cases run with
  | stop clearable _ =>
      have sameTable := clearable.walk
      rw [walk] at sameTable
      cases sameTable
      rfl
  | top clearable =>
      have sameTable := clearable.walk
      rw [walk] at sameTable
      cases sameTable
      rfl

/-- A table that keeps another entry is where the remover stops. -/
theorem eq_of_shared
    (run : ClearRun setup vaddr depth low state after)
    (walk : tableAt setup state vaddr depth = some table)
    (shared :
      ((validSlots setup state table).erase (digit vaddr depth)).Nonempty)
    (lowest : low = none) :
    after = state.clearEntry table (digit vaddr depth) := by
  subst lowest
  cases run with
  | stop clearable _ =>
      have sameTable := clearable.walk
      rw [walk] at sameTable
      cases sameTable
      rfl
  | top clearable =>
      have sameTable := clearable.walk
      rw [walk] at sameTable
      cases sameTable
      rfl
  | up clearable emptied _ =>
      have sameTable := clearable.walk
      rw [walk] at sameTable
      cases sameTable
      rw [emptied] at shared
      exact absurd shared Finset.not_nonempty_empty

end ClearRun

/-! ## The number of tables -/

/-- The tables at the same place of two page tables. -/
def SamePlace
    (setup : PgtblSetup)
    (first second : PgtblState)
    (table other : Nat) : Prop :=
  (table = setup.base ∧ other = setup.base) ∨
    ∃ vaddr depth,
      setup.OwnAddr vaddr ∧
        tableAt setup first vaddr depth = some table ∧
        tableAt setup second vaddr depth = some other

theorem tableAt_base
    (sound : TreeSound setup state)
    (walk : tableAt setup state vaddr depth = some setup.base) :
    depth = 0 :=
  (walkTo_meet sound.oneParent walk
    (show walkTo (childIn state) digit setup.base vaddr 0 = _ from rfl)).1

/-- One place holds one table. -/
theorem SamePlace.inj
    {first second other : Nat}
    (sound : TreeSound setup after)
    (left : SamePlace setup state after first other)
    (right : SamePlace setup state after second other) :
    first = second := by
  rcases left with ⟨rfl, rfl⟩ | ⟨vaddr, depth, _, walk, otherWalk⟩
  · rcases right with ⟨rfl, _⟩ | ⟨vaddr, depth, _, walk, otherWalk⟩
    · rfl
    · obtain rfl := tableAt_base sound otherWalk
      exact Option.some.inj walk
  · rcases right with ⟨rfl, rfl⟩ | ⟨vaddr', depth', _, walk', otherWalk'⟩
    · obtain rfl := tableAt_base sound otherWalk
      exact (Option.some.inj walk).symm
    · obtain ⟨rfl, digits⟩ :=
        walkTo_meet sound.oneParent otherWalk otherWalk'
      have same : tableAt setup state vaddr depth = _ := walkTo_congr digits
      exact Option.some.inj (walk.symm.trans (same.trans walk'))

/-- A tidy page table has its tables where its leaves are. -/
theorem Tidy.exists_samePlace
    (tidy : Tidy setup state)
    (sound : TreeSound setup state)
    (leaves :
      ∀ {vaddr level entry},
        setup.OwnAddr vaddr →
        LeafAt setup state vaddr level entry →
        LeafAt setup after vaddr level entry)
    (reached : Reached setup state table) :
    ∃ other, SamePlace setup state after table other := by
  rcases reached with isBase | ⟨vaddr, depth, own, walk⟩
  · exact ⟨setup.base, .inl ⟨isBase, rfl⟩⟩
  · cases depth with
    | zero =>
        exact ⟨setup.base, .inl ⟨(Option.some.inj walk).symm, rfl⟩⟩
    | succ depth =>
        obtain ⟨address, level, entry, addressOwn, same, deep, leaf⟩ :=
          tidy.exists_leaf sound own (Nat.succ_pos depth) walk
        obtain ⟨⟨lower, lowerWalk, _⟩, _⟩ := leaves addressOwn leaf
        obtain ⟨other, otherWalk⟩ :=
          TreeSound.tableAt_some_of_le lowerWalk deep
        exact ⟨other, .inr ⟨address, depth + 1, addressOwn,
          (walkTo_congr same).trans walk, otherWalk⟩⟩

theorem Tidy.ncard_reached_le
    (tidy : Tidy setup state)
    (sound : TreeSound setup state)
    (afterSound : TreeSound setup after)
    (leaves :
      ∀ {vaddr level entry},
        setup.OwnAddr vaddr →
        LeafAt setup state vaddr level entry →
        LeafAt setup after vaddr level entry) :
    ({table | Reached setup state table} : Set Nat).ncard ≤
      ({table | Reached setup after table} : Set Nat).ncard := by
  have finite : ({table | Reached setup after table} : Set Nat).Finite :=
    (List.finite_toSet after.tables).subset fun _ reached =>
      Reached.mem_tables reached afterSound
  choose! place placed using fun table (reached : Reached setup state table) =>
    tidy.exists_samePlace sound leaves reached
  refine Set.ncard_le_ncard_of_injOn place ?_ ?_ finite
  · intro table reached
    rcases placed table reached with ⟨_, isBase⟩ | ⟨_, _, own, _, walk⟩
    · exact .inl isBase
    · exact Reached.of_walk own walk
  · intro first firstReached second secondReached same
    have left := placed first firstReached
    rw [same] at left
    exact left.inj afterSound (placed second secondReached)

/-- Two tidy page tables with the same leaves have as many pages. -/
theorem Tidy.nrPages_eq
    (tidy : Tidy setup state)
    (sound : TreeSound setup state)
    (afterTidy : Tidy setup after)
    (afterSound : TreeSound setup after)
    (kernelNodup : setup.kernelTables.Nodup)
    (leaves :
      ∀ {vaddr level entry},
        LeafAt setup after vaddr level entry ↔
          LeafAt setup state vaddr level entry) :
    after.nrPages = state.nrPages := by
  rw [(tidy.accounted sound kernelNodup).pages,
    (afterTidy.accounted afterSound kernelNodup).pages]
  exact congrArg Nat.cast
    (le_antisymm
      (afterTidy.ncard_reached_le afterSound sound fun _ => leaves.mp)
      (tidy.ncard_reached_le sound afterSound fun _ => leaves.mpr))

end RiscvWorkshop.Pgtbl
