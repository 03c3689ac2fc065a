import Mathlib
import RiscvWorkshop.PageTableTree

namespace RiscvWorkshop.Pgtbl

open RadixWalk

/-!
# Single changes of a page table

The calls change a tree in four ways: they take a page for a table, write an
entry and count it, clear an entry and drop the count, and free a table that
nothing refers to.  Every one of them keeps the tree sound.
-/

variable {setup : PgtblSetup}
variable {state : PgtblState}
variable {vaddr depth table idx pte fresh : Nat}

/-- Write one entry and set the use count of its table. -/
def PgtblState.setEntry
    (state : PgtblState)
    (table idx pte : Nat)
    (count : Int) : PgtblState :=
  { state.writePte table idx pte with
    usecnt := Function.update state.usecnt table count }

/-- Take a free page for a table. -/
def PgtblState.addTable
    (state : PgtblState)
    (fresh : Nat)
    (rest : List Nat) : PgtblState :=
  { state with
    mem := Function.update state.mem fresh fun _ => 0
    usecnt := Function.update state.usecnt fresh 1
    free := rest
    nrPages := state.nrPages + 1
    tables := fresh :: state.tables }

/-- Return the page of a table. -/
def PgtblState.dropTable (state : PgtblState) (low : Nat) : PgtblState :=
  { state with
    usecnt := Function.update state.usecnt low 0
    free := state.free ++ [low]
    tables := state.tables.erase low
    nrPages := state.nrPages - 1 }

/-! ## Writing one entry -/

theorem mem_setEntry
    (state : PgtblState)
    (table idx pte other slot : Nat)
    (count : Int) :
    (state.setEntry table idx pte count).mem other slot =
      if other = table ∧ slot = idx then pte else state.mem other slot := by
  by_cases sameTable : other = table
  · subst sameTable
    by_cases sameSlot : slot = idx
    · subst sameSlot
      simp [PgtblState.setEntry, PgtblState.writePte]
    · simp [PgtblState.setEntry, PgtblState.writePte, sameSlot]
  · simp [PgtblState.setEntry, PgtblState.writePte, sameTable]

theorem mem_setEntry_self
    (state : PgtblState)
    (table idx pte : Nat)
    (count : Int) :
    (state.setEntry table idx pte count).mem table idx = pte := by
  rw [mem_setEntry, if_pos ⟨rfl, rfl⟩]

theorem mem_setEntry_of_ne
    {other slot : Nat}
    {count : Int}
    (different : ¬ (other = table ∧ slot = idx)) :
    (state.setEntry table idx pte count).mem other slot =
      state.mem other slot := by
  rw [mem_setEntry, if_neg different]

/-- A written entry decides the child of its slot and of no other. -/
theorem childIn_setEntry
    (member : table ∈ state.tables)
    (bound : idx < pgtblEntriesNr)
    (count : Int)
    (other slot : Nat) :
    childIn (state.setEntry table idx pte count) other slot =
      if other = table ∧ slot = idx then
        childOf pte
      else
        childIn state other slot := by
  by_cases here : other = table ∧ slot = idx
  · obtain ⟨rfl, rfl⟩ := here
    have member' :
        other ∈ (state.setEntry other slot pte count).tables := member
    rw [if_pos ⟨rfl, rfl⟩, childIn, if_pos ⟨member', bound⟩,
      mem_setEntry_self]
  · rw [if_neg here, childIn, childIn, mem_setEntry_of_ne here]
    rfl

theorem validSlots_setEntry_of_ne
    {other : Nat}
    {count : Int}
    (different : other ≠ table) :
    validSlots setup (state.setEntry table idx pte count) other =
      validSlots setup state other := by
  ext slot
  rw [mem_validSlots, mem_validSlots,
    mem_setEntry_of_ne fun same => different same.1]

/-- A valid entry in an unused own slot adds the slot. -/
theorem validSlots_setEntry_valid
    {count : Int}
    (bound : idx < pgtblEntriesNr)
    (own : setup.OwnSlot table idx)
    (valid : pteIsValid pte = true) :
    validSlots setup (state.setEntry table idx pte count) table =
      insert idx (validSlots setup state table) := by
  ext slot
  rw [Finset.mem_insert, mem_validSlots, mem_validSlots]
  by_cases same : slot = idx
  · subst same
    rw [mem_setEntry_self]
    exact ⟨fun _ => .inl rfl, fun _ => ⟨bound, own, valid⟩⟩
  · rw [mem_setEntry_of_ne fun here => same here.2]
    exact ⟨.inr, fun either => either.resolve_left same⟩

/-- An invalid entry takes its slot away. -/
theorem validSlots_setEntry_invalid
    {count : Int}
    (invalid : pteIsValid pte = false) :
    validSlots setup (state.setEntry table idx pte count) table =
      (validSlots setup state table).erase idx := by
  ext slot
  rw [Finset.mem_erase, mem_validSlots, mem_validSlots]
  by_cases same : slot = idx
  · subst same
    rw [mem_setEntry_self, invalid]
    simp
  · rw [mem_setEntry_of_ne fun here => same here.2]
    exact ⟨fun holds => ⟨same, holds⟩, fun holds => holds.2⟩

/-- A table that no slot refers to is not on a walk. -/
theorem tableAt_ne_orphan
    (notBase : fresh ≠ setup.base)
    (orphan : ∀ other slot, childIn state other slot ≠ some fresh)
    (walk : tableAt setup state vaddr depth = some table) :
    table ≠ fresh := by
  rintro rfl
  cases depth with
  | zero =>
      cases walk
      exact notBase rfl
  | succ depth =>
      obtain ⟨parent, _, holds⟩ := walkTo_succ_eq_some.mp walk
      exact orphan _ _ holds

namespace TreeSound

/-- Unused slots are own slots: those copied from the kernel are in use. -/
theorem ownSlot_of_unused
    (sound : TreeSound setup state)
    (unused : pteIsValid (state.mem table idx) = false) :
    setup.OwnSlot table idx := by
  rintro ⟨rfl, inherited⟩
  rw [sound.inheritedUsed inherited] at unused
  cases unused

/-- A written entry keeps the tree when its children and its count fit. -/
theorem setEntry
    {count : Int}
    (sound : TreeSound setup state)
    (member : table ∈ state.tables)
    (own : setup.OwnSlot table idx)
    (counted :
      count =
        1 + (validSlots setup (state.setEntry table idx pte count) table).card)
    (closed :
      ∀ {other slot below},
        childIn (state.setEntry table idx pte count) other slot = some below →
        below ∈ state.tables)
    (oneParent :
      OneParent (childIn (state.setEntry table idx pte count)) setup.base)
    (depth :
      ∀ vaddr,
        tableAt setup (state.setEntry table idx pte count) vaddr pgtblLvlNr =
          none) :
    TreeSound setup (state.setEntry table idx pte count) := by
  refine
    { base := sound.base
      nodup := sound.nodup
      pages := sound.pages
      counted := ?_
      closed := closed
      oneParent := oneParent
      depth := depth
      inheritedUsed := ?_
      freeNodup := sound.freeNodup
      freeFresh := ?_ }
  · intro other otherMember
    by_cases same : other = table
    · subst same
      rw [← counted]
      exact Function.update_self ..
    · rw [validSlots_setEntry_of_ne same, ← sound.counted other otherMember]
      exact Function.update_of_ne same ..
  · intro slot inherited
    rw [mem_setEntry_of_ne]
    · exact sound.inheritedUsed inherited
    · rintro ⟨rfl, rfl⟩
      exact own ⟨rfl, inherited⟩
  · intro pfn free
    obtain ⟨notTable, unused, bound⟩ := sound.freeFresh pfn free
    have different : pfn ≠ table := fun same => notTable (same ▸ member)
    exact ⟨notTable, (Function.update_of_ne different ..).trans unused, bound⟩

/-- An entry that refers to no table only takes children away. -/
theorem setEntry_childless
    {count : Int}
    (sound : TreeSound setup state)
    (member : table ∈ state.tables)
    (bound : idx < pgtblEntriesNr)
    (own : setup.OwnSlot table idx)
    (childless : childOf pte = none)
    (counted :
      count =
        1 + (validSlots setup (state.setEntry table idx pte count) table).card) :
    TreeSound setup (state.setEntry table idx pte count) := by
  have fewer :
      ∀ {other slot below},
        childIn (state.setEntry table idx pte count) other slot = some below →
        childIn state other slot = some below := by
    intro other slot below holds
    rw [childIn_setEntry member bound] at holds
    split_ifs at holds with here
    · rw [childless] at holds
      cases holds
    · exact holds
  refine sound.setEntry member own counted ?_ ?_ ?_
  · intro other slot below holds
    exact sound.closed (fewer holds)
  · exact
      { unique := fun first second =>
          sound.oneParent.unique (fewer first) (fewer second)
        rootless := fun node slot holds =>
          sound.oneParent.rootless node slot (fewer holds) }
  · intro vaddr
    cases walk :
        tableAt setup (state.setEntry table idx pte count) vaddr pgtblLvlNr with
    | none =>
        rfl
    | some reached =>
        have earlier := walkTo_mono fewer walk
        rw [← tableAt, sound.depth] at earlier
        cases earlier

/-- A counted leaf in an unused slot keeps the tree. -/
theorem setEntry_leaf
    (sound : TreeSound setup state)
    (member : table ∈ state.tables)
    (bound : idx < pgtblEntriesNr)
    (unused : pteIsValid (state.mem table idx) = false)
    (valid : pteIsValid pte = true)
    (leaf : pteIsLeaf pte = true) :
    TreeSound setup
      (state.setEntry table idx pte (state.usecnt table + 1)) := by
  have own := sound.ownSlot_of_unused unused
  have absent : idx ∉ validSlots setup state table := by
    intro holds
    rw [(mem_validSlots.mp holds).2.2] at unused
    cases unused
  apply sound.setEntry_childless member bound own (childOf_of_leaf leaf)
  rw [validSlots_setEntry_valid bound own valid,
    Finset.card_insert_of_notMem absent, sound.counted table member]
  push_cast
  ring

/-- A cleared valid own slot keeps the tree. -/
theorem setEntry_clear
    (sound : TreeSound setup state)
    (member : table ∈ state.tables)
    (used : idx ∈ validSlots setup state table) :
    TreeSound setup (state.setEntry table idx 0 (state.usecnt table - 1)) := by
  obtain ⟨bound, own, _⟩ := mem_validSlots.mp used
  apply sound.setEntry_childless member bound own
    (childOf_of_invalid pteIsValid_zero)
  rw [validSlots_setEntry_invalid pteIsValid_zero,
    sound.counted table member, ← Finset.card_erase_add_one used]
  push_cast
  ring

/-- A new empty table below an unused own slot of an upper table. -/
theorem setEntry_table
    (sound : TreeSound setup state)
    (walk : tableAt setup state vaddr depth = some table)
    (upper : depth < 2)
    (unused : pteIsValid (state.mem table (digit vaddr depth)) = false)
    (freshMember : fresh ∈ state.tables)
    (notBase : fresh ≠ setup.base)
    (orphan : ∀ other slot, childIn state other slot ≠ some fresh)
    (empty : ∀ slot, childIn state fresh slot = none)
    (valid : pteIsValid pte = true)
    (refers : childOf pte = some fresh) :
    TreeSound setup
      (state.setEntry table (digit vaddr depth) pte
        (state.usecnt table + 1)) := by
  have member := sound.mem_tables walk
  have bound := digit_lt vaddr depth
  have own := sound.ownSlot_of_unused unused
  have notFresh : table ≠ fresh := tableAt_ne_orphan notBase orphan walk
  have added :
      ∀ {other slot below},
        childIn
            (state.setEntry table (digit vaddr depth) pte
              (state.usecnt table + 1)) other slot = some below →
          childIn state other slot = some below ∨
            (other = table ∧ slot = digit vaddr depth ∧ below = fresh) := by
    intro other slot below holds
    rw [childIn_setEntry member bound] at holds
    split_ifs at holds with here
    · rw [refers] at holds
      cases holds
      exact .inr ⟨here.1, here.2, rfl⟩
    · exact .inl holds
  have absent : digit vaddr depth ∉ validSlots setup state table := by
    intro holds
    rw [(mem_validSlots.mp holds).2.2] at unused
    cases unused
  refine sound.setEntry member own ?_ ?_ ?_ ?_
  · rw [validSlots_setEntry_valid bound own valid,
      Finset.card_insert_of_notMem absent, sound.counted table member]
    push_cast
    ring
  · intro other slot below holds
    rcases added holds with old | ⟨_, _, rfl⟩
    · exact sound.closed old
    · exact freshMember
  · constructor
    · intro first second firstSlot secondSlot below firstHolds secondHolds
      rcases added firstHolds with firstOld | ⟨rfl, rfl, rfl⟩
      · rcases added secondHolds with secondOld | ⟨rfl, rfl, rfl⟩
        · exact sound.oneParent.unique firstOld secondOld
        · exact absurd firstOld (orphan _ _)
      · rcases added secondHolds with secondOld | ⟨rfl, rfl, _⟩
        · exact absurd secondOld (orphan _ _)
        · exact ⟨rfl, rfl⟩
    · intro node slot holds
      rcases added holds with old | ⟨_, _, same⟩
      · exact sound.oneParent.rootless node slot old
      · exact notBase same.symm
  · intro other
    cases grown :
        tableAt setup
          (state.setEntry table (digit vaddr depth) pte
            (state.usecnt table + 1)) other pgtblLvlNr with
    | none =>
        rfl
    | some reached =>
        have freshEmpty :
            ∀ slot,
              childIn
                  (state.setEntry table (digit vaddr depth) pte
                    (state.usecnt table + 1)) fresh slot = none := by
          intro slot
          rw [childIn_setEntry member bound,
            if_neg fun here => notFresh here.1.symm]
          exact empty slot
        rcases walkTo_grown added freshEmpty grown with
          old | ⟨_, earlier, three, meets, _⟩
        · rw [← tableAt, sound.depth] at old
          cases old
        · -- the new table hangs below an upper table, so no walk is too long
          have sameDepth := (walkTo_meet sound.oneParent meets walk).1
          have levels : pgtblLvlNr = 3 := rfl
          omega

end TreeSound

/-! ## Taking and returning pages -/

theorem pgtblAllocPgtblPage_eq_some
    {after : PgtblState}
    (allocated : pgtblAllocPgtblPage state = some (fresh, after)) :
    ∃ rest, state.free = fresh :: rest ∧ after = state.addTable fresh rest := by
  unfold pgtblAllocPgtblPage at allocated
  cases free : state.free with
  | nil =>
      rw [free] at allocated
      cases allocated
  | cons pfn rest =>
      rw [free] at allocated
      cases allocated
      exact ⟨rest, rfl, rfl⟩

section TakePage

variable {rest : List Nat}

/-- A free page is no table, so no slot refers to it. -/
theorem TreeSound.free_orphan
    (sound : TreeSound setup state)
    (free : fresh ∈ state.free)
    (other slot : Nat) :
    childIn state other slot ≠ some fresh :=
  fun holds => (sound.freeFresh fresh free).1 (sound.closed holds)

theorem childIn_addTable
    (rest : List Nat)
    (notTable : fresh ∉ state.tables) :
    childIn (state.addTable fresh rest) = childIn state := by
  funext other slot
  by_cases same : other = fresh
  · subst same
    have zero : (state.addTable other rest).mem other slot = 0 := by
      simp [PgtblState.addTable]
    have none : childIn state other slot = none :=
      if_neg fun known => notTable known.1
    rw [none, childIn, zero, childOf_of_invalid pteIsValid_zero, ite_self]
  · have content : (state.addTable fresh rest).mem other = state.mem other :=
      Function.update_of_ne same ..
    have member :
        other ∈ (state.addTable fresh rest).tables ↔ other ∈ state.tables :=
      ⟨fun known => (List.mem_cons.mp known).resolve_left same,
        List.mem_cons_of_mem fresh⟩
    rw [childIn, childIn, content]
    simp only [member]

theorem validSlots_addTable_of_ne
    {other : Nat}
    (different : other ≠ fresh) :
    validSlots setup (state.addTable fresh rest) other =
      validSlots setup state other := by
  have content : (state.addTable fresh rest).mem other = state.mem other :=
    Function.update_of_ne different ..
  rw [validSlots, validSlots, content]

theorem validSlots_addTable_self :
    validSlots setup (state.addTable fresh rest) fresh = ∅ := by
  ext slot
  rw [mem_validSlots]
  have zero : (state.addTable fresh rest).mem fresh slot = 0 := by
    simp [PgtblState.addTable]
  rw [zero, pteIsValid_zero]
  simp

/-- A page taken for a table is one more table, which nothing refers to yet. -/
theorem TreeSound.addTable
    (sound : TreeSound setup state)
    (free : state.free = fresh :: rest) :
    TreeSound setup (state.addTable fresh rest) := by
  have isFree : fresh ∈ state.free := free ▸ List.mem_cons_self
  obtain ⟨notTable, _, _⟩ := sound.freeFresh fresh isFree
  have sameChildren := childIn_addTable rest notTable
  have freeNodup := sound.freeNodup
  rw [free, List.nodup_cons] at freeNodup
  refine
    { base := List.mem_cons_of_mem fresh sound.base
      nodup := List.nodup_cons.mpr ⟨notTable, sound.nodup⟩
      pages := ?_
      counted := ?_
      closed := ?_
      oneParent := sameChildren ▸ sound.oneParent
      depth := fun vaddr =>
        (tableAt_congr sameChildren vaddr pgtblLvlNr).trans (sound.depth vaddr)
      inheritedUsed := ?_
      freeNodup := freeNodup.2
      freeFresh := ?_ }
  · have pages := sound.pages
    simp only [PgtblState.addTable, List.length_cons]
    push_cast
    omega
  · intro other member
    by_cases same : other = fresh
    · subst same
      rw [validSlots_addTable_self]
      simp [PgtblState.addTable]
    · have older : other ∈ state.tables :=
        (List.mem_cons.mp member).resolve_left same
      rw [validSlots_addTable_of_ne same, ← sound.counted other older]
      exact Function.update_of_ne same ..
  · intro other slot below holds
    rw [sameChildren] at holds
    exact List.mem_cons_of_mem fresh (sound.closed holds)
  · intro slot inherited
    have different : setup.base ≠ fresh := fun same => notTable (same ▸ sound.base)
    have content :
        (state.addTable fresh rest).mem setup.base = state.mem setup.base :=
      Function.update_of_ne different ..
    rw [content]
    exact sound.inheritedUsed inherited
  · intro pfn remains
    have different : pfn ≠ fresh := fun same => freeNodup.1 (same ▸ remains)
    obtain ⟨pfnNotTable, unused, bound⟩ :=
      sound.freeFresh pfn (free ▸ List.mem_cons_of_mem fresh remains)
    refine ⟨?_, (Function.update_of_ne different ..).trans unused, bound⟩
    exact fun member =>
      (List.mem_cons.mp member).elim different pfnNotTable

end TakePage

section ReturnPage

variable {low : Nat}

theorem mem_dropTable
    (sound : TreeSound setup state)
    {other : Nat} :
    other ∈ (state.dropTable low).tables ↔
      other ∈ state.tables ∧ other ≠ low :=
  (sound.nodup.mem_erase_iff).trans and_comm

/-- An empty table has no children to lose. -/
theorem childIn_dropTable
    (sound : TreeSound setup state)
    (empty : validSlots setup state low = ∅)
    (notBase : low ≠ setup.base) :
    childIn (state.dropTable low) = childIn state := by
  funext other slot
  by_cases same : other = low
  · subst same
    have gone : childIn (state.dropTable other) other slot = none :=
      if_neg fun known => ((mem_dropTable sound).mp known.1).2 rfl
    cases holds : childIn state other slot with
    | none =>
        exact gone
    | some below =>
        -- a child would be a valid entry
        obtain ⟨_, bound, refers⟩ := childIn_eq_some.mp holds
        have used : slot ∈ validSlots setup state other :=
          mem_validSlots.mpr
            ⟨bound, TreeSound.ownSlot_of_ne notBase slot,
              (childOf_eq_some.mp refers).1⟩
        rw [empty] at used
        exact absurd used (Finset.notMem_empty slot)
  · have member :
        other ∈ (state.dropTable low).tables ↔ other ∈ state.tables := by
      rw [mem_dropTable sound]
      exact ⟨And.left, fun known => ⟨known, same⟩⟩
    rw [childIn, childIn]
    simp only [member]
    rfl

/-- Returning an empty table that nothing refers to keeps the tree. -/
theorem TreeSound.dropTable
    (sound : TreeSound setup state)
    (member : low ∈ state.tables)
    (notBase : low ≠ setup.base)
    (bound : low < 2 ^ 44)
    (empty : validSlots setup state low = ∅)
    (orphan : ∀ other slot, childIn state other slot ≠ some low) :
    TreeSound setup (state.dropTable low) := by
  have sameChildren := childIn_dropTable sound empty notBase
  have notFree : low ∉ state.free :=
    fun free => (sound.freeFresh low free).1 member
  refine
    { base := (mem_dropTable sound).mpr ⟨sound.base, notBase.symm⟩
      nodup := sound.nodup.erase low
      pages := ?_
      counted := ?_
      closed := ?_
      oneParent := sameChildren ▸ sound.oneParent
      depth := fun vaddr =>
        (tableAt_congr sameChildren vaddr pgtblLvlNr).trans (sound.depth vaddr)
      inheritedUsed := sound.inheritedUsed
      freeNodup := ?_
      freeFresh := ?_ }
  · have pages := sound.pages
    have lengths := List.length_erase_add_one member
    simp only [PgtblState.dropTable]
    omega
  · intro other otherMember
    obtain ⟨older, different⟩ := (mem_dropTable sound).mp otherMember
    exact (Function.update_of_ne different ..).trans (sound.counted other older)
  · intro other slot below holds
    rw [sameChildren] at holds
    refine (mem_dropTable sound).mpr ⟨sound.closed holds, ?_⟩
    rintro rfl
    exact orphan other slot holds
  · exact List.nodup_append'.mpr
      ⟨sound.freeNodup, List.nodup_singleton low,
        List.disjoint_singleton.mpr notFree⟩
  · intro pfn free
    rcases List.mem_append.mp free with older | new
    · obtain ⟨notTable, unused, small⟩ := sound.freeFresh pfn older
      have different : pfn ≠ low := fun same => notFree (same ▸ older)
      exact ⟨fun known => notTable ((mem_dropTable sound).mp known).1,
        (Function.update_of_ne different ..).trans unused, small⟩
    · obtain rfl := List.mem_singleton.mp new
      exact ⟨fun known => ((mem_dropTable sound).mp known).2 rfl,
        Function.update_self .., bound⟩

end ReturnPage

/-! ## What the walks find afterwards -/

/-- Map a page: a leaf in an unused slot, counted. -/
def PgtblState.mapLeaf
    (state : PgtblState)
    (table idx pte : Nat) : PgtblState :=
  state.setEntry table idx pte (state.usecnt table + 1)

/-- Attach a new table below an unused slot, counted. -/
def PgtblState.growTable
    (state : PgtblState)
    (table idx fresh : Nat)
    (rest : List Nat) : PgtblState :=
  (state.addTable fresh rest).setEntry table idx
    (tablePte (fresh <<< pageShift)) (state.usecnt table + 1)

section Leaf

theorem TreeSound.mapLeaf
    (sound : TreeSound setup state)
    (walk : tableAt setup state vaddr depth = some table)
    (unused : pteIsValid (state.mem table (digit vaddr depth)) = false)
    (valid : pteIsValid pte = true)
    (leaf : pteIsLeaf pte = true) :
    TreeSound setup (state.mapLeaf table (digit vaddr depth) pte) :=
  sound.setEntry_leaf (sound.mem_tables walk) (digit_lt vaddr depth) unused
    valid leaf

/-- A leaf in an unused slot changes no child. -/
theorem childIn_mapLeaf
    (sound : TreeSound setup state)
    (walk : tableAt setup state vaddr depth = some table)
    (unused : pteIsValid (state.mem table (digit vaddr depth)) = false)
    (leaf : pteIsLeaf pte = true) :
    childIn (state.mapLeaf table (digit vaddr depth) pte) = childIn state := by
  have member := sound.mem_tables walk
  funext node slot
  rw [PgtblState.mapLeaf, childIn_setEntry member (digit_lt vaddr depth)]
  split_ifs with here
  · rw [here.1, here.2, childOf_of_leaf leaf, childIn,
      childOf_of_invalid unused, ite_self]
  · rfl

/-- A leaf in an unused slot leaves every walk as it was. -/
theorem tableAt_mapLeaf
    (sound : TreeSound setup state)
    (walk : tableAt setup state vaddr depth = some table)
    (unused : pteIsValid (state.mem table (digit vaddr depth)) = false)
    (leaf : pteIsLeaf pte = true)
    (other level : Nat) :
    tableAt setup (state.mapLeaf table (digit vaddr depth) pte) other level =
      tableAt setup state other level :=
  tableAt_congr (childIn_mapLeaf sound walk unused leaf) other level

/-- The addresses of the mapped page find the new entry. -/
theorem entryAt_mapLeaf_same
    {other : Nat}
    (sound : TreeSound setup state)
    (walk : tableAt setup state vaddr depth = some table)
    (unused : pteIsValid (state.mem table (digit vaddr depth)) = false)
    (leaf : pteIsLeaf pte = true)
    (same : SameEntry depth other vaddr) :
    EntryAt setup (state.mapLeaf table (digit vaddr depth) pte) other depth
      pte := by
  refine ⟨table, ?_, ?_⟩
  · rw [tableAt_mapLeaf sound walk unused leaf,
      tableAt_sameEntry same (Nat.le_succ depth)]
    exact walk
  · rw [same depth le_rfl]
    exact mem_setEntry_self ..

/-- All other addresses find what they found before. -/
theorem entryAt_mapLeaf_other
    {other level entry : Nat}
    (sound : TreeSound setup state)
    (walk : tableAt setup state vaddr depth = some table)
    (unused : pteIsValid (state.mem table (digit vaddr depth)) = false)
    (leaf : pteIsLeaf pte = true)
    (different : ¬ SameEntry depth other vaddr) :
    EntryAt setup (state.mapLeaf table (digit vaddr depth) pte) other level
        entry ↔
      EntryAt setup state other level entry := by
  -- an address that uses the written slot selects the mapped page
  have elsewhere :
      ∀ {reached},
        tableAt setup state other level = some reached →
        ¬ (reached = table ∧ digit other level = digit vaddr depth) := by
    rintro reached otherWalk ⟨rfl, sameSlot⟩
    obtain ⟨rfl, sameDigits⟩ := walkTo_meet sound.oneParent otherWalk walk
    apply different
    intro earlier bound
    rcases Nat.lt_or_eq_of_le bound with before | rfl
    · exact sameDigits earlier before
    · exact sameSlot
  constructor
  · rintro ⟨reached, otherWalk, holds⟩
    rw [tableAt_mapLeaf sound walk unused leaf] at otherWalk
    refine ⟨reached, otherWalk, ?_⟩
    rwa [PgtblState.mapLeaf, mem_setEntry_of_ne (elsewhere otherWalk)] at holds
  · rintro ⟨reached, otherWalk, holds⟩
    refine ⟨reached, ?_, ?_⟩
    · rw [tableAt_mapLeaf sound walk unused leaf]
      exact otherWalk
    · rwa [PgtblState.mapLeaf, mem_setEntry_of_ne (elsewhere otherWalk)]

end Leaf

section NewTable

variable {rest : List Nat}

/-- What attaching a new table rests on. -/
structure Attachable
    (setup : PgtblSetup)
    (state : PgtblState)
    (vaddr depth table fresh : Nat)
    (rest : List Nat) : Prop where
  walk : tableAt setup state vaddr depth = some table
  upper : depth < 2
  unused : pteIsValid (state.mem table (digit vaddr depth)) = false
  free : state.free = fresh :: rest

namespace Attachable

variable (attachable : Attachable setup state vaddr depth table fresh rest)
variable (sound : TreeSound setup state)

include attachable in
theorem isFree : fresh ∈ state.free :=
  attachable.free ▸ List.mem_cons_self

include attachable sound in
theorem table_ne : table ≠ fresh := by
  rintro rfl
  exact (sound.freeFresh table attachable.isFree).1
    (sound.mem_tables attachable.walk)

include attachable sound in
theorem refers : childOf (tablePte (fresh <<< pageShift)) = some fresh :=
  childOf_eq_some.mpr
    (tablePte_fields (sound.freeFresh fresh attachable.isFree).2.2)

include attachable sound in
/-- The new table is empty. -/
theorem mem_fresh
    (slot : Nat) :
    (state.growTable table (digit vaddr depth) fresh rest).mem fresh slot =
      0 := by
  rw [PgtblState.growTable,
    mem_setEntry_of_ne fun here =>
      attachable.table_ne sound here.1.symm]
  simp [PgtblState.addTable]

include attachable sound in
theorem childIn_growTable
    (other slot : Nat) :
    childIn (state.growTable table (digit vaddr depth) fresh rest) other slot =
      if other = table ∧ slot = digit vaddr depth then
        some fresh
      else
        childIn state other slot := by
  have notTable := (sound.freeFresh fresh attachable.isFree).1
  rw [PgtblState.growTable,
    childIn_setEntry
      (List.mem_cons_of_mem fresh (sound.mem_tables attachable.walk))
      (digit_lt vaddr depth),
    attachable.refers sound, childIn_addTable rest notTable]

include attachable sound in
/-- No child is lost, for the slot was unused. -/
theorem childIn_mono
    {other slot below : Nat}
    (holds : childIn state other slot = some below) :
    childIn (state.growTable table (digit vaddr depth) fresh rest) other slot =
      some below := by
  rw [attachable.childIn_growTable sound]
  split_ifs with here
  · rw [here.1, here.2, childIn_eq_some,
      childOf_of_invalid attachable.unused] at holds
    cases holds.2.2
  · exact holds

include attachable sound in
/-- Attaching a new table keeps the tree. -/
theorem treeSound :
    TreeSound setup
      (state.growTable table (digit vaddr depth) fresh rest) := by
  have notTable := (sound.freeFresh fresh attachable.isFree).1
  have sameChildren := childIn_addTable rest notTable
  have different := attachable.table_ne sound
  have content :
      (state.addTable fresh rest).mem table = state.mem table :=
    Function.update_of_ne different ..
  have count :
      (state.addTable fresh rest).usecnt table = state.usecnt table :=
    Function.update_of_ne different ..
  rw [PgtblState.growTable, ← count]
  apply (sound.addTable attachable.free).setEntry_table
    ((tableAt_congr sameChildren vaddr depth).trans attachable.walk)
    attachable.upper
  · rw [content]
    exact attachable.unused
  · exact List.mem_cons_self
  · rintro rfl
    exact notTable sound.base
  · intro other slot
    rw [sameChildren]
    exact sound.free_orphan attachable.isFree other slot
  · intro slot
    rw [sameChildren]
    exact if_neg fun known => notTable known.1
  · exact (childOf_eq_some.mp (attachable.refers sound)).1
  · exact attachable.refers sound

include attachable sound in
/-- The walk goes on to the new table. -/
theorem tableAt_succ :
    tableAt setup (state.growTable table (digit vaddr depth) fresh rest) vaddr
      (depth + 1) = some fresh := by
  apply walkTo_succ_eq_some.mpr
  refine ⟨table, walkTo_mono (attachable.childIn_mono sound) attachable.walk, ?_⟩
  rw [attachable.childIn_growTable sound, if_pos ⟨rfl, rfl⟩]

include attachable sound in
/-- Old walks go on. -/
theorem tableAt_mono
    {other level reached : Nat}
    (walk : tableAt setup state other level = some reached) :
    tableAt setup (state.growTable table (digit vaddr depth) fresh rest) other
      level = some reached :=
  walkTo_mono (attachable.childIn_mono sound) walk

include attachable sound in
/-- Old tables keep their entries, but for the slot of the new table. -/
theorem mem_of_ne
    {other slot : Nat}
    (member : other ∈ state.tables)
    (different : ¬ (other = table ∧ slot = digit vaddr depth)) :
    (state.growTable table (digit vaddr depth) fresh rest).mem other slot =
      state.mem other slot := by
  have notFresh : other ≠ fresh := by
    rintro rfl
    exact (sound.freeFresh other attachable.isFree).1 member
  have content : (state.addTable fresh rest).mem other = state.mem other :=
    Function.update_of_ne notFresh ..
  rw [PgtblState.growTable, mem_setEntry_of_ne different, content]

include attachable sound in
/-- A walk is an old one or ends at the new table. -/
theorem tableAt_grown
    {other level reached : Nat}
    (walk :
      tableAt setup (state.growTable table (digit vaddr depth) fresh rest) other
        level = some reached) :
    tableAt setup state other level = some reached ∨ reached = fresh := by
  have added :
      ∀ {node slot below},
        childIn (state.growTable table (digit vaddr depth) fresh rest) node
            slot = some below →
          childIn state node slot = some below ∨
            (node = table ∧ slot = digit vaddr depth ∧ below = fresh) := by
    intro node slot below child
    rw [attachable.childIn_growTable sound] at child
    split_ifs at child with here
    · cases child
      exact .inr ⟨here.1, here.2, rfl⟩
    · exact .inl child
  have freshEmpty :
      ∀ slot,
        childIn (state.growTable table (digit vaddr depth) fresh rest) fresh
          slot = none := by
    intro slot
    rw [childIn, attachable.mem_fresh sound,
      childOf_of_invalid pteIsValid_zero, ite_self]
  exact (walkTo_grown added freshEmpty walk).imp_right And.left

include attachable sound in
/-- Apart from the entry of the new table, walks find the valid entries as before. -/
theorem entryAt
    {other level entry : Nat}
    (valid : pteIsValid entry = true)
    (elsewhere :
      ¬ (level = depth ∧ entry = tablePte (fresh <<< pageShift))) :
    EntryAt setup (state.growTable table (digit vaddr depth) fresh rest) other
        level entry ↔
      EntryAt setup state other level entry := by
  constructor
  · rintro ⟨reached, otherWalk, holds⟩
    rcases attachable.tableAt_grown sound otherWalk with old | rfl
    · have member := sound.mem_tables old
      refine ⟨reached, old, ?_⟩
      by_cases here : reached = table ∧ digit other level = digit vaddr depth
      · obtain ⟨rfl, sameSlot⟩ := here
        have written :
            (state.growTable reached (digit vaddr depth) fresh rest).mem reached
                (digit other level) = tablePte (fresh <<< pageShift) := by
          rw [sameSlot]
          exact mem_setEntry_self ..
        have sameLevel := (walkTo_meet sound.oneParent old attachable.walk).1
        exact absurd ⟨sameLevel, holds.symm.trans written⟩ elsewhere
      · rwa [attachable.mem_of_ne sound member here] at holds
    · rw [attachable.mem_fresh sound] at holds
      rw [← holds, pteIsValid_zero] at valid
      cases valid
  · rintro ⟨reached, old, holds⟩
    have member := sound.mem_tables old
    refine ⟨reached, attachable.tableAt_mono sound old, ?_⟩
    rw [attachable.mem_of_ne sound member]
    · exact holds
    · rintro ⟨rfl, sameSlot⟩
      have unused := attachable.unused
      rw [← sameSlot, holds, valid] at unused
      cases unused

end Attachable

end NewTable

end RiscvWorkshop.Pgtbl
