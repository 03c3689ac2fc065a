import Mathlib
import RiscvWorkshop.RadixWalk
import RiscvWorkshop.PageTable

namespace RiscvWorkshop.Pgtbl

open RadixWalk

/-!
# The tree of a page table

A table refers to the tables below it through its valid entries that are no
leaves.  The slots of the base that were copied from the kernel lead to tables
of the kernel; the use count of the base leaves them out, and so does the
number of pages.
-/

/-- The table that an entry refers to. -/
def childOf (pte : Nat) : Option Nat :=
  if pteIsValid pte && !pteIsLeaf pte then some (pteToPfn pte) else none

/-- The table below a slot of a table. -/
def childIn (state : PgtblState) (table idx : Nat) : Option Nat :=
  if table ∈ state.tables ∧ idx < pgtblEntriesNr then
    childOf (state.mem table idx)
  else
    none

/-- The table index that an address selects after a number of descents. -/
def digit (vaddr depth : Nat) : Nat :=
  pgtblCalcIndexVal vaddr (2 - depth)

/-- Two addresses select the same entry on a level. -/
def SameEntry (depth first second : Nat) : Prop :=
  ∀ earlier ≤ depth, digit first earlier = digit second earlier

/-- The table that an address reaches after a number of descents. -/
def tableAt
    (setup : PgtblSetup)
    (state : PgtblState)
    (vaddr depth : Nat) : Option Nat :=
  walkTo (childIn state) digit setup.base vaddr depth

/-- A slot of a table that was not copied from the kernel. -/
def PgtblSetup.OwnSlot (setup : PgtblSetup) (table idx : Nat) : Prop :=
  ¬ (table = setup.base ∧ setup.inherited idx = true)

instance (setup : PgtblSetup) (table idx : Nat) :
    Decidable (setup.OwnSlot table idx) :=
  inferInstanceAs (Decidable (¬ _))

/-- An address whose slot of the base was not copied from the kernel. -/
def PgtblSetup.OwnAddr (setup : PgtblSetup) (vaddr : Nat) : Prop :=
  setup.inherited (digit vaddr 0) = false

/-- The valid entries of a table that its use count counts. -/
def validSlots
    (setup : PgtblSetup)
    (state : PgtblState)
    (table : Nat) : Finset Nat :=
  (Finset.range pgtblEntriesNr).filter fun idx =>
    setup.OwnSlot table idx ∧ pteIsValid (state.mem table idx) = true

/--
The tables form a tree of three levels, every use count is the number of valid
entries and one for the reference that keeps the table, the slots copied from
the kernel are in use, and the free pages of the allocator are no tables.
-/
structure TreeSound
    (setup : PgtblSetup)
    (state : PgtblState) : Prop where
  base : setup.base ∈ state.tables
  nodup : state.tables.Nodup
  pages : state.nrPages + setup.kernelTables.length = state.tables.length
  counted :
    ∀ table ∈ state.tables,
      state.usecnt table = 1 + (validSlots setup state table).card
  closed :
    ∀ {table idx below},
      childIn state table idx = some below → below ∈ state.tables
  oneParent : OneParent (childIn state) setup.base
  depth : ∀ vaddr, tableAt setup state vaddr pgtblLvlNr = none
  inheritedUsed :
    ∀ {idx},
      setup.inherited idx = true →
      pteIsValid (state.mem setup.base idx) = true
  freeNodup : state.free.Nodup
  freeFresh :
    ∀ pfn ∈ state.free,
      pfn ∉ state.tables ∧ state.usecnt pfn = 0 ∧ pfn < 2 ^ 44

/-- The entry that the walk of an address finds after a number of descents. -/
def EntryAt
    (setup : PgtblSetup)
    (state : PgtblState)
    (vaddr depth pte : Nat) : Prop :=
  ∃ table,
    tableAt setup state vaddr depth = some table ∧
      state.mem table (digit vaddr depth) = pte

/-- The walk of an address meets a leaf. -/
def LeafAt
    (setup : PgtblSetup)
    (state : PgtblState)
    (vaddr depth pte : Nat) : Prop :=
  EntryAt setup state vaddr depth pte ∧
    pteIsValid pte = true ∧ pteIsLeaf pte = true

/-- The walk of an address finds the entry of a level in use. -/
def EntryBusy
    (setup : PgtblSetup)
    (state : PgtblState)
    (vaddr depth : Nat) : Prop :=
  ∃ pte, EntryAt setup state vaddr depth pte ∧ pteIsValid pte = true

theorem digit_lt (vaddr depth : Nat) : digit vaddr depth < pgtblEntriesNr := by
  have mask : pgtblEntriesNr - 1 = 2 ^ 9 - 1 := rfl
  rw [digit, pgtblCalcIndexVal, mask, Nat.and_two_pow_sub_one_eq_mod]
  exact Nat.mod_lt _ (by decide)

theorem SameEntry.symm
    {depth first second : Nat}
    (same : SameEntry depth first second) :
    SameEntry depth second first :=
  fun earlier bound => (same earlier bound).symm

theorem SameEntry.trans
    {depth first second third : Nat}
    (left : SameEntry depth first second)
    (right : SameEntry depth second third) :
    SameEntry depth first third :=
  fun earlier bound => (left earlier bound).trans (right earlier bound)

theorem childOf_eq_some
    {pte below : Nat} :
    childOf pte = some below ↔
      pteIsValid pte = true ∧ pteIsLeaf pte = false ∧ pteToPfn pte = below := by
  unfold childOf
  cases pteIsValid pte <;> cases pteIsLeaf pte <;> simp

theorem childOf_of_invalid
    {pte : Nat}
    (invalid : pteIsValid pte = false) :
    childOf pte = none := by
  simp [childOf, invalid]

theorem childOf_of_leaf
    {pte : Nat}
    (leaf : pteIsLeaf pte = true) :
    childOf pte = none := by
  simp [childOf, leaf]

theorem pteIsValid_zero : pteIsValid 0 = false := by
  decide

theorem childIn_eq_some
    {state : PgtblState}
    {table idx below : Nat} :
    childIn state table idx = some below ↔
      table ∈ state.tables ∧ idx < pgtblEntriesNr ∧
        childOf (state.mem table idx) = some below := by
  unfold childIn
  split_ifs with known
  · simp [known]
  · constructor
    · intro impossible
      cases impossible
    · rintro ⟨member, bound, _⟩
      exact absurd ⟨member, bound⟩ known

theorem mem_validSlots
    {setup : PgtblSetup}
    {state : PgtblState}
    {table idx : Nat} :
    idx ∈ validSlots setup state table ↔
      idx < pgtblEntriesNr ∧ setup.OwnSlot table idx ∧
        pteIsValid (state.mem table idx) = true := by
  simp [validSlots]

/-- Without another child the walks are the same. -/
theorem tableAt_congr
    {setup : PgtblSetup}
    {before after : PgtblState}
    (same : childIn after = childIn before)
    (vaddr depth : Nat) :
    tableAt setup after vaddr depth = tableAt setup before vaddr depth := by
  rw [tableAt, tableAt, same]

/-- Addresses with the same earlier entries reach the same table. -/
theorem tableAt_sameEntry
    {setup : PgtblSetup}
    {state : PgtblState}
    {depth level first second : Nat}
    (same : SameEntry depth first second)
    (bound : level ≤ depth + 1) :
    tableAt setup state first level = tableAt setup state second level :=
  walkTo_congr fun earlier earlierBound =>
    same earlier (Nat.lt_succ_iff.mp (lt_of_lt_of_le earlierBound bound))

namespace TreeSound

variable {setup : PgtblSetup}
variable {state : PgtblState}
variable {vaddr depth table : Nat}

/-- Every table that a walk reaches belongs to the page table. -/
theorem mem_tables
    (sound : TreeSound setup state)
    (walk : tableAt setup state vaddr depth = some table) :
    table ∈ state.tables := by
  cases depth with
  | zero =>
      cases walk
      exact sound.base
  | succ depth =>
      obtain ⟨parent, _, holds⟩ := walkTo_succ_eq_some.mp walk
      exact sound.closed holds

/-- The walk of an address goes on exactly through entries that refer to tables. -/
theorem tableAt_succ
    (sound : TreeSound setup state)
    (walk : tableAt setup state vaddr depth = some table) :
    tableAt setup state vaddr (depth + 1) =
      childOf (state.mem table (digit vaddr depth)) := by
  have member := sound.mem_tables walk
  have slot := digit_lt vaddr depth
  rw [tableAt, walkTo]
  rw [tableAt] at walk
  rw [walk, Option.bind_some, childIn, if_pos ⟨member, slot⟩]

/-- A walk that stops stays stopped. -/
theorem tableAt_none_of_le
    {later : Nat}
    (stopped : tableAt setup state vaddr depth = none)
    (bound : depth ≤ later) :
    tableAt setup state vaddr later = none := by
  induction later, bound using Nat.le_induction with
  | base =>
      exact stopped
  | succ later _ inductionHypothesis =>
      rw [tableAt] at inductionHypothesis
      rw [tableAt, walkTo, inductionHypothesis]
      rfl

/-- A walk that reaches a depth reached every earlier depth. -/
theorem tableAt_some_of_le
    {earlier : Nat}
    (walk : tableAt setup state vaddr depth = some table)
    (bound : earlier ≤ depth) :
    ∃ above, tableAt setup state vaddr earlier = some above := by
  cases known : tableAt setup state vaddr earlier with
  | none =>
      rw [tableAt_none_of_le known bound] at walk
      cases walk
  | some above =>
      exact ⟨above, rfl⟩

theorem depth_lt
    (sound : TreeSound setup state)
    (walk : tableAt setup state vaddr depth = some table) :
    depth < pgtblLvlNr := by
  by_contra deep
  rw [tableAt_none_of_le (sound.depth vaddr) (not_lt.mp deep)] at walk
  cases walk

/-- Own addresses select own slots. -/
theorem ownSlot
    (sound : TreeSound setup state)
    (own : setup.OwnAddr vaddr)
    (walk : tableAt setup state vaddr depth = some table) :
    setup.OwnSlot table (digit vaddr depth) := by
  rintro ⟨rfl, isInherited⟩
  -- only the walk without descents ends at the base
  obtain ⟨rfl, _⟩ :=
    walkTo_meet sound.oneParent walk
      (show walkTo (childIn state) digit setup.base vaddr 0 = _ from rfl)
  rw [PgtblSetup.OwnAddr] at own
  rw [own] at isInherited
  cases isInherited

/-- Slots below the base are own slots. -/
theorem ownSlot_of_ne
    (below : table ≠ setup.base)
    (idx : Nat) :
    setup.OwnSlot table idx :=
  fun inherited => below inherited.1

/-- The walk of an address meets at most one leaf. -/
theorem leafAt_unique
    (sound : TreeSound setup state)
    {otherDepth pte otherPte : Nat}
    (leaf : LeafAt setup state vaddr depth pte)
    (other : LeafAt setup state vaddr otherDepth otherPte) :
    depth = otherDepth ∧ pte = otherPte := by
  -- a walk does not pass a leaf
  have blocks :
      ∀ {upper lower upperPte lowerPte : Nat},
        LeafAt setup state vaddr upper upperPte →
        LeafAt setup state vaddr lower lowerPte →
        ¬ upper < lower := by
    rintro upper lower upperPte lowerPte ⟨⟨above, upperWalk, upperHolds⟩, _, isLeaf⟩
      ⟨⟨below, lowerWalk, _⟩, _⟩ deeper
    obtain ⟨next, nextWalk⟩ :=
      tableAt_some_of_le lowerWalk (Nat.succ_le_of_lt deeper)
    rw [sound.tableAt_succ upperWalk, upperHolds,
      childOf_of_leaf isLeaf] at nextWalk
    cases nextWalk
  have sameDepth : depth = otherDepth :=
    le_antisymm (not_lt.mp (blocks other leaf)) (not_lt.mp (blocks leaf other))
  subst sameDepth
  obtain ⟨⟨first, firstWalk, firstHolds⟩, _⟩ := leaf
  obtain ⟨⟨second, secondWalk, secondHolds⟩, _⟩ := other
  rw [firstWalk] at secondWalk
  cases secondWalk
  exact ⟨rfl, firstHolds.symm.trans secondHolds⟩

end TreeSound

/-! ## What the reader finds -/

section Reader

variable {setup : PgtblSetup}
variable {state : PgtblState}
variable {vaddr : Nat}

/-- The loop of the reader follows the walk of the address. -/
theorem extractLoop_of_walk
    (sound : TreeSound setup state)
    {lvl depth table : Nat}
    (levels : depth + lvl = pgtblLvlNr)
    (walk : tableAt setup state vaddr depth = some table) :
    (∃ leafDepth pte,
        LeafAt setup state vaddr leafDepth pte ∧
          extractLoop state.mem vaddr lvl table =
            .ok (mappingOf pte (2 - leafDepth))) ∨
      ((∀ leafDepth pte,
          depth ≤ leafDepth → ¬ LeafAt setup state vaddr leafDepth pte) ∧
        extractLoop state.mem vaddr lvl table = .error .enoent) := by
  induction lvl generalizing depth table with
  | zero =>
      have bound := sound.depth_lt walk
      rw [Nat.add_zero] at levels
      exact absurd levels (Nat.ne_of_lt bound)
  | succ lvl inductionHypothesis =>
      have lvlDepth : lvl = 2 - depth := by
        have three : pgtblLvlNr = 3 := rfl
        omega
      have next := sound.tableAt_succ walk
      simp only [extractLoop, walkPgtbl]
      rw [lvlDepth, ← digit, ← lvlDepth]
      cases valid : pteIsValid (state.mem table (digit vaddr depth)) with
      | false =>
          right
          refine ⟨?_, by simp⟩
          rintro leafDepth pte deeper ⟨⟨leafTable, leafWalk, holds⟩, isValid, _⟩
          rw [childOf_of_invalid valid] at next
          rcases Nat.eq_or_lt_of_le deeper with rfl | deeper
          · rw [walk] at leafWalk
            cases leafWalk
            rw [holds, isValid] at valid
            cases valid
          · rw [TreeSound.tableAt_none_of_le next deeper] at leafWalk
            cases leafWalk
      | true =>
          cases leaf : pteIsLeaf (state.mem table (digit vaddr depth)) with
          | true =>
              left
              exact ⟨depth, _, ⟨⟨table, walk, rfl⟩, valid, leaf⟩, by
                simp [lvlDepth]⟩
          | false =>
              rw [childOf_eq_some.mpr ⟨valid, leaf, rfl⟩] at next
              rcases inductionHypothesis (by omega) next with
                ⟨leafDepth, pte, leafAt, loop⟩ | ⟨none, loop⟩
              · left
                exact ⟨leafDepth, pte, leafAt, by simpa using loop⟩
              · right
                refine ⟨?_, by simpa using loop⟩
                rintro leafDepth pte deeper leafAt
                rcases Nat.eq_or_lt_of_le deeper with rfl | deeper
                · obtain ⟨⟨leafTable, leafWalk, holds⟩, _, isLeaf⟩ := leafAt
                  rw [walk] at leafWalk
                  cases leafWalk
                  rw [holds, isLeaf] at leaf
                  cases leaf
                · exact none leafDepth pte deeper leafAt

/-- The reader returns the page of the leaf that the walk meets. -/
theorem halPgtblExtract_of_leaf
    (sound : TreeSound setup state)
    {depth pte : Nat}
    (leaf : LeafAt setup state vaddr depth pte) :
    halPgtblExtract setup state.mem vaddr = .ok (mappingOf pte (2 - depth)) := by
  rcases extractLoop_of_walk sound (Nat.zero_add _)
      (show tableAt setup state vaddr 0 = some setup.base from rfl) with
    ⟨leafDepth, leafPte, found, loop⟩ | ⟨none, _⟩
  · obtain ⟨rfl, rfl⟩ := sound.leafAt_unique leaf found
    exact loop
  · exact absurd leaf (none depth pte (Nat.zero_le depth))

/-- Without a leaf the reader reports that nothing is mapped. -/
theorem halPgtblExtract_of_no_leaf
    (sound : TreeSound setup state)
    (none : ∀ depth pte, ¬ LeafAt setup state vaddr depth pte) :
    halPgtblExtract setup state.mem vaddr = .error .enoent := by
  rcases extractLoop_of_walk sound (Nat.zero_add _)
      (show tableAt setup state vaddr 0 = some setup.base from rfl) with
    ⟨leafDepth, leafPte, found, _⟩ | ⟨_, loop⟩
  · exact absurd found (none leafDepth leafPte)
  · exact loop

/-- A mapped address has a leaf. -/
theorem leafAt_of_halPgtblExtract
    (sound : TreeSound setup state)
    {mapping : Mapping}
    (extracted : halPgtblExtract setup state.mem vaddr = .ok mapping) :
    ∃ depth pte,
      LeafAt setup state vaddr depth pte ∧
        mapping = mappingOf pte (2 - depth) := by
  by_contra none
  have noLeaf : ∀ depth pte, ¬ LeafAt setup state vaddr depth pte := by
    intro depth pte leaf
    have found := halPgtblExtract_of_leaf sound leaf
    rw [extracted] at found
    cases found
    exact none ⟨depth, pte, leaf, rfl⟩
  rw [halPgtblExtract_of_no_leaf sound noLeaf] at extracted
  cases extracted

/-- Two page tables with the same leaves for an address read the same there. -/
theorem halPgtblExtract_congr
    {other : PgtblState}
    (sound : TreeSound setup state)
    (otherSound : TreeSound setup other)
    (same :
      ∀ depth pte,
        LeafAt setup other vaddr depth pte ↔
          LeafAt setup state vaddr depth pte) :
    halPgtblExtract setup other.mem vaddr =
      halPgtblExtract setup state.mem vaddr := by
  by_cases found : ∃ depth pte, LeafAt setup state vaddr depth pte
  · obtain ⟨depth, pte, leaf⟩ := found
    rw [halPgtblExtract_of_leaf sound leaf,
      halPgtblExtract_of_leaf otherSound ((same depth pte).mpr leaf)]
  · have noLeaf : ∀ depth pte, ¬ LeafAt setup state vaddr depth pte :=
      fun depth pte leaf => found ⟨depth, pte, leaf⟩
    rw [halPgtblExtract_of_no_leaf sound noLeaf,
      halPgtblExtract_of_no_leaf otherSound fun depth pte leaf =>
        noLeaf depth pte ((same depth pte).mp leaf)]

/-- The reader looks at the table indices of an address only. -/
theorem extractLoop_congr
    {other lvl : Nat}
    (mem : Nat → Nat → Nat)
    (same :
      ∀ level < lvl,
        pgtblCalcIndexVal vaddr level = pgtblCalcIndexVal other level)
    (table : Nat) :
    extractLoop mem vaddr lvl table = extractLoop mem other lvl table := by
  induction lvl generalizing table with
  | zero =>
      rfl
  | succ lvl inductionHypothesis =>
      have below := inductionHypothesis fun level bound =>
        same level (Nat.lt_succ_of_lt bound)
      simp only [extractLoop, walkPgtbl, same lvl (Nat.lt_succ_self lvl), below]

/-- Addresses of one smallest page read the same. -/
theorem halPgtblExtract_sameEntry
    {other : Nat}
    (mem : Nat → Nat → Nat)
    (same : SameEntry 2 vaddr other) :
    halPgtblExtract setup mem vaddr = halPgtblExtract setup mem other := by
  apply extractLoop_congr
  intro level bound
  have levelNr : pgtblLvlNr = 3 := rfl
  have digits := same (2 - level) (by omega)
  rwa [digit, digit, show 2 - (2 - level) = level by omega] at digits

end Reader

end RiscvWorkshop.Pgtbl
