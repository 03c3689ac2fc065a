import Mathlib
import RiscvWorkshop.PageTableRuns

namespace RiscvWorkshop.Pgtbl

/-!
# Requests that fail

A request fails when an entry of its range is in use or when memory runs out.
The module says what a failed request leaves behind: only one that is refused
at its first page leaves the page table as it was.
-/

variable {setup : PgtblSetup}
variable {initial state after : PgtblState}
variable {actions : List PgtblAction}
variable {request : MapRequest}
variable {result : Except Errno Unit}
variable {vaddr depth target table pte : Nat}

/-- The page frame database knows every table. -/
def TablesKnown (setup : PgtblSetup) (state : PgtblState) : Prop :=
  ∀ table ∈ state.tables, setup.isPfnValid table = true

/-- The page frame database knows every free page. -/
def FreeKnown (setup : PgtblSetup) (state : PgtblState) : Prop :=
  ∀ pfn ∈ state.free, setup.isPfnValid pfn = true

/-! ## The remover takes no page for a table -/

theorem decPageUseCount_tables
    {pfn : Nat}
    {freed : Bool}
    (dropped : decPageUseCount state pfn = some (freed, after)) :
    after.tables ⊆ state.tables := by
  simp only [decPageUseCount] at dropped
  split_ifs at dropped with negative last
  · cases dropped
    exact List.erase_subset
  · cases dropped
    exact List.Subset.refl _

theorem freeLowTable_tables
    {low : Nat}
    (freed : freeLowTable setup state low = some after) :
    after.tables ⊆ state.tables := by
  unfold freeLowTable at freed
  split_ifs at freed with known
  cases dropped : decPageUseCount state low with
  | none =>
      rw [dropped] at freed
      cases freed
  | some outcome =>
      obtain ⟨last, middle⟩ := outcome
      rw [dropped] at freed
      cases last with
      | false =>
          cases freed
      | true =>
          have kept := decPageUseCount_tables dropped
          cases freed
          exact kept

theorem clearTables_tables
    {lowest : Bool}
    {upper : List (Nat × Nat)}
    (cleared : clearTables setup vaddr lowest upper state = some after) :
    after.tables ⊆ state.tables := by
  induction upper generalizing lowest state with
  | nil =>
      cases cleared
      exact List.Subset.refl _
  | cons first upper inductionHypothesis =>
      obtain ⟨lvl, table⟩ := first
      simp only [clearTables] at cleared
      by_cases known : setup.isPfnValid table = true
      · rw [if_pos known] at cleared
        split at cleared
        · cases cleared
        · rename_i last middle dropped
          have kept : middle.tables ⊆ state.tables := by
            have fewer := decPageUseCount_tables dropped
            exact fewer
          by_cases shared : middle.usecnt table > 1
          · rw [if_pos shared] at cleared
            cases cleared
            exact kept
          · rw [if_neg shared] at cleared
            by_cases isLowest : lowest = true
            · rw [if_pos isLowest] at cleared
              exact List.Subset.trans (inductionHypothesis cleared) kept
            · rw [if_neg isLowest] at cleared
              split at cleared
              · cases cleared
              · rename_i lower freed
                exact List.Subset.trans (inductionHypothesis cleared)
                  (List.Subset.trans (freeLowTable_tables freed) kept)
      · rw [if_neg known] at cleared
        cases cleared

theorem removePage_tables
    {unmanaged : Bool}
    (removed : removePage setup state unmanaged vaddr = some after) :
    after.tables ⊆ state.tables := by
  unfold removePage at removed
  cases released :
      releaseMapped setup state unmanaged
        (halPgtblExtract setup state.mem vaddr) with
  | none =>
      rw [released] at removed
      cases removed
  | some middle =>
      have kept : middle.tables ⊆ state.tables := by
        cases extracted : halPgtblExtract setup state.mem vaddr with
        | error =>
            rw [extracted] at released
            cases released
            exact List.Subset.refl _
        | ok mapping =>
            rw [extracted] at released
            simp only [releaseMapped] at released
            split_ifs at released
            · cases released
              exact List.Subset.refl _
            · obtain ⟨⟨freed, dropped⟩, decreased, rfl⟩ :=
                Option.map_eq_some_iff.mp released
              exact decPageUseCount_tables decreased
      rw [released] at removed
      simp only [removeTableReference] at removed
      cases collected :
          collectTables middle.mem vaddr pgtblLvlNr setup.base [] with
      | none =>
          rw [collected] at removed
          cases removed
      | some tables =>
          rw [collected] at removed
          exact List.Subset.trans (clearTables_tables removed) kept

/-- The condition on a step under which the database knows every table. -/
def StepKnown
    (setup : PgtblSetup)
    (state : PgtblState)
    (action : PgtblAction) : Prop :=
  StepSound setup state action ∧ FreeKnown setup state

theorem pgtblStep_tablesKnown
    {action : PgtblAction}
    (sound : TreeSound setup state)
    (known : TablesKnown setup state)
    (condition : StepKnown setup state action)
    (step : PgtblStep setup state action after) :
    TablesKnown setup after := by
  cases action with
  | otherWork =>
      rw [TablesKnown, step.tables]
      exact known
  | call call =>
      cases call with
      | enter request =>
          obtain ⟨⟨result, final⟩, entered, rfl⟩ :=
            Option.map_eq_some_iff.mp step
          obtain ⟨_, run⟩ := halPgtblEnter_run sound condition.1 entered
          intro table member
          rcases (run.dataKept sound).tables table member with older | fresh
          · exact known table older
          · exact condition.2 table fresh
      | extract vaddr =>
          obtain ⟨visited, folded, _⟩ :=
            foldl_visit state
              (extractTrail state.mem vaddr pgtblLvlNr setup.base)
          cases step
          rw [folded]
          exact known
      | remove vaddr flags len =>
          refine halPgtblRemove_preserves (TablesKnown setup) ?_ known
            condition.1 step
          intro before unmanaged address final beforeKnown _ removed
          exact fun table member =>
            beforeKnown table (removePage_tables removed member)

/-- In such a run the tree stays sound, and the database knows the tables. -/
theorem run_tablesKnown
    (new : NewPgtbl setup initial)
    (known : TablesKnown setup initial)
    (run :
      Run (Guarded (StepKnown setup) (PgtblStep setup)) initial actions state) :
    TreeSound setup state ∧ TablesKnown setup state := by
  apply run.invariant ⟨new.tree, known⟩
  rintro source action target ⟨sound, sourceKnown⟩ ⟨condition, step⟩
  exact ⟨pgtblStep_sound sound condition.1 step,
    pgtblStep_tablesKnown sound sourceKnown condition step⟩

/-! ## Requests that are refused at once -/

/-- The loop of the writer stops at an entry in use and writes nothing. -/
theorem mapLoop_of_busy
    {lvl : Nat}
    (paddr prot flags : Nat)
    (sound : TreeSound setup state)
    (known : TablesKnown setup state)
    (walk : tableAt setup state vaddr depth = some table)
    (levels : depth + lvl = pgtblLvlNr)
    (reach : depth ≤ target)
    (busy : EntryBusy setup state vaddr target) :
    ∃ visited,
      mapLoop setup vaddr paddr prot flags (targetSize target) lvl table
          state =
        some (.error .ebusy, { state with visited := visited }) := by
  obtain ⟨entry, ⟨bottom, bottomWalk, holds⟩, valid⟩ := busy
  have levelNr : pgtblLvlNr = 3 := rfl
  have bottomDepth := sound.depth_lt bottomWalk
  induction lvl generalizing state depth table with
  | zero =>
      omega
  | succ lvl inductionHypothesis =>
      have lvlDepth : lvl = 2 - depth := by omega
      have size :
          pgtblCalcPagesize lvl = targetSize target ↔ depth = target := by
        rw [targetSize, pgtblCalcPagesize_inj (by omega) (by omega)]
        omega
      have index : pgtblCalcIndexVal vaddr lvl = digit vaddr depth := by
        rw [digit, lvlDepth]
      have isKnown := known table (sound.mem_tables walk)
      simp only [mapLoop, growPgtbl, index, size, isKnown, if_true]
      by_cases here : depth = target
      · subst here
        rw [walk] at bottomWalk
        cases bottomWalk
        simp only [holds, valid, if_true]
        exact ⟨_, rfl⟩
      · -- the entry on the way refers to the next table
        have early : depth < target := lt_of_le_of_ne reach here
        obtain ⟨next, nextWalk⟩ :=
          TreeSound.tableAt_some_of_le bottomWalk (Nat.succ_le_of_lt early)
        have refers := nextWalk
        rw [sound.tableAt_succ walk] at refers
        obtain ⟨used, _, frame⟩ := childOf_eq_some.mp refers
        simp only [used, here, frame, if_true, if_false]
        exact inductionHypothesis (sound.visit table) known nextWalk
          (by omega) early bottomWalk holds

theorem mapVaddrToPaddr_of_busy
    {paddr : Nat}
    (prot flags : Nat)
    (sound : TreeSound setup state)
    (known : TablesKnown setup state)
    (alignedVaddr : vaddr % targetSize target = 0)
    (alignedPaddr : paddr % targetSize target = 0)
    (busy : EntryBusy setup state vaddr target) :
    ∃ visited,
      mapVaddrToPaddr setup state vaddr paddr prot flags (targetSize target) =
        some (.error .ebusy, { state with visited := visited }) := by
  have isAligned :
      ∀ size, targetSize target = size →
        (aligned vaddr size && aligned paddr size) = true := by
    rintro size rfl
    simp [aligned, alignedVaddr, alignedPaddr]
  obtain ⟨visited, looped⟩ :=
    mapLoop_of_busy paddr prot flags sound known
      (show tableAt setup state vaddr 0 = some setup.base from rfl)
      (Nat.zero_add _) (Nat.zero_le _) busy
  refine ⟨visited, ?_⟩
  unfold mapVaddrToPaddr
  split_ifs with large medium small
  · simp [isAligned _ large.1] at large
  · simp [isAligned _ medium.1] at medium
  · simp [isAligned _ small.1] at small
  · rw [looped]

/-- A request whose first page is in use is refused and changes no entry. -/
theorem halPgtblEnter_of_busy
    (sound : TreeSound setup state)
    (known : TablesKnown setup state)
    (pageAligned : request.aligned pageSize = true)
    (nonempty : request.pages ≠ 0)
    (busy : EntryBusy setup state request.vaddr request.leafDepth) :
    ∃ visited,
      halPgtblEnter setup state request =
        some (.error .ebusy, { state with visited := visited }) := by
  obtain ⟨alignedVaddr, alignedPaddr, _, _⟩ :=
    (request.aligned_iff _).mp (request.aligned_pgsize pageAligned)
  rw [← request.targetSize_leafDepth] at alignedVaddr alignedPaddr
  obtain ⟨visited, mapped⟩ :=
    mapVaddrToPaddr_of_busy request.prot request.flags sound known
      alignedVaddr alignedPaddr busy
  obtain ⟨later, pages⟩ := Nat.exists_eq_succ_of_ne_zero nonempty
  refine ⟨visited, ?_⟩
  rw [halPgtblEnter, if_pos pageAligned, pages, enterLoop,
    ← request.targetSize_leafDepth, mapped]

/-! ## Requests that fail later -/

/-- A walk of the writer fails with `EBUSY` or without memory. -/
theorem MapRun.error_eq
    {code : Errno}
    (run : MapRun setup vaddr target pte depth state (.error code) after) :
    code = .ebusy ∨ code = .enomem := by
  generalize outcome : (Except.error code : Except Errno Unit) = result at run
  induction run with
  | busy =>
      cases outcome
      exact .inl rfl
  | mapped =>
      cases outcome
  | noMemory =>
      cases outcome
      exact .inr rfl
  | follow _ _ _ _ inductionHypothesis =>
      exact inductionHypothesis outcome
  | attach _ _ _ inductionHypothesis =>
      exact inductionHypothesis outcome

/-- A page that fails without running out of memory is in use. -/
theorem MapRun.busy_of_error
    {code : Errno}
    (run : MapRun setup vaddr target pte depth state (.error code) after)
    (sound : TreeSound setup state)
    (memory : code ≠ .enomem) :
    EntryBusy setup state vaddr target := by
  obtain rfl := run.error_eq.resolve_right memory
  exact run.busy_of_eq sound

/-- Mapping other pages keeps a mapped page. -/
theorem EnterRun.leafAt
    {pages paddr prot flags address entry : Nat}
    (run :
      EnterRun setup target prot flags pages vaddr paddr state result after)
    (sound : TreeSound setup state)
    (leaf : LeafAt setup state address target entry) :
    LeafAt setup after address target entry := by
  induction run with
  | done =>
      exact leaf
  | failed memory _ run =>
      obtain ⟨_, visited, rfl⟩ :=
        run.eq_of_busy sound (run.busy_of_error sound memory)
      exact leaf
  | @next pages vaddr paddr state middle after result asked run later
      inductionHypothesis =>
      obtain ⟨valid, isLeaf, _⟩ := leafPte_attributes prot flags paddr
      have mapped := run.pageMapped sound valid (isLeaf.mpr asked)
      obtain ⟨found, entryValid, entryLeaf⟩ := leaf
      have different : ¬ SameEntry target address vaddr := by
        intro same
        have busy : EntryBusy setup state address target :=
          ⟨entry, found, entryValid⟩
        exact mapped.unused (busy.of_sameEntry same.symm)
      exact inductionHypothesis (run.treeSound sound valid (isLeaf.mpr asked))
        ⟨(mapped.others different entryValid (.inr rfl)).mpr found,
          entryValid, entryLeaf⟩

/-- A failed request returns, and leaves the page table as it was. -/
def FailureUndone
    (setup : PgtblSetup)
    (state : PgtblState)
    (request : MapRequest) : Prop :=
  ∃ code after,
    halPgtblEnter setup state request = some (.error code, after) ∧
      (∀ vaddr,
        halPgtblExtract setup after.mem vaddr =
          halPgtblExtract setup state.mem vaddr) ∧
      after.nrPages = state.nrPages ∧
      after.tables = state.tables ∧
      ∀ table ∈ state.tables, after.usecnt table = state.usecnt table

/-- A leaf on the way of the first page holds the entry that the page needs. -/
theorem EnterSound.busy_of_leafAt
    {level entry : Nat}
    (sound : TreeSound setup state)
    (mappable : EnterSound setup state request)
    (nonempty : request.pages ≠ 0)
    (leaf : LeafAt setup state request.vaddr level entry) :
    EntryBusy setup state request.vaddr request.leafDepth := by
  have first := mappable 0 (Nat.pos_of_ne_zero nonempty)
  simp only [Nat.le_zero, exists_eq_left, Nat.zero_mul, Nat.add_zero] at first
  rcases first with busy | ⟨_, noLarger⟩
  · exact busy
  · have deep : request.leafDepth ≤ level :=
      Nat.le_of_not_lt fun above => noLarger level above entry leaf
    obtain ⟨found, valid, _⟩ := leaf
    rcases Nat.eq_or_lt_of_le deep with same | deeper
    · exact ⟨entry, same ▸ found, valid⟩
    · obtain ⟨below, walk, _⟩ := found
      exact sound.entryBusy_of_deeper walk deeper

/-- A request that fails after its first page leaves that page mapped. -/
theorem busy_of_failureUndone
    (sound : TreeSound setup state)
    (mappable : EnterSound setup state request)
    (nonempty : request.pages ≠ 0)
    (undone : FailureUndone setup state request) :
    EntryBusy setup state request.vaddr request.leafDepth := by
  obtain ⟨code, after, entered, mapped, _, _, _⟩ := undone
  obtain ⟨_, run⟩ := halPgtblEnter_run sound mappable entered
  have afterSound := run.treeSound sound
  have mappedFirst :
      ∀ {level entry},
        LeafAt setup state request.vaddr level entry →
        EntryBusy setup state request.vaddr request.leafDepth :=
    mappable.busy_of_leafAt sound nonempty
  generalize request.pages = pages at run
  cases run with
  | failed memory _ run =>
      exact run.busy_of_error sound memory
  | next asked run later =>
      obtain ⟨valid, isLeaf, _⟩ :=
        leafPte_attributes request.prot request.flags request.paddr
      have page := run.pageMapped sound valid (isLeaf.mpr asked)
      -- the first page is still mapped, so it was mapped before
      have kept :=
        later.leafAt (run.treeSound sound valid (isLeaf.mpr asked))
          (page.leaf fun _ _ => rfl)
      have found := halPgtblExtract_of_leaf afterSound kept
      rw [mapped] at found
      obtain ⟨level, entry, leaf, _⟩ := leafAt_of_halPgtblExtract sound found
      exact mappedFirst leaf

/--
In a run of sound steps, a request that is refused at its first page is undone.
Of the requests that meet no larger leaf and fail, no other is undone: one that
runs out of memory stops the kernel, and one that is refused at a later page
leaves the earlier pages mapped.
-/
theorem failureUndone_iff_firstBusy
    (new : NewPgtbl setup initial)
    (known : TablesKnown setup initial)
    (run :
      Run (Guarded (StepKnown setup) (PgtblStep setup)) initial actions state)
    (pageAligned : request.aligned pageSize = true)
    (failed :
      ∀ after, halPgtblEnter setup state request ≠ some (.ok (), after)) :
    (EntryBusy setup state request.vaddr request.leafDepth →
        FailureUndone setup state request) ∧
      (EnterSound setup state request →
        (FailureUndone setup state request ↔
          EntryBusy setup state request.vaddr request.leafDepth)) := by
  obtain ⟨sound, tablesKnown⟩ := run_tablesKnown new known run
  have nonempty : request.pages ≠ 0 := by
    intro empty
    apply failed state
    rw [halPgtblEnter, if_pos pageAligned, empty, enterLoop]
  have undone :
      EntryBusy setup state request.vaddr request.leafDepth →
        FailureUndone setup state request := by
    intro busy
    obtain ⟨visited, entered⟩ :=
      halPgtblEnter_of_busy sound tablesKnown pageAligned nonempty busy
    exact ⟨_, _, entered, fun _ => rfl, rfl, rfl, fun _ _ => rfl⟩
  exact ⟨undone, fun mappable =>
    ⟨busy_of_failureUndone sound mappable nonempty, undone⟩⟩

theorem failureUndone_iff_firstBusy_mappedTwice :
    ∃ middle,
      Run (Guarded (StepKnown bareSetup) (PgtblStep bareSetup))
          (bareState [2, 3] []) [.call (.enter (smallPage 0 0x100000))]
          middle ∧
        FailureUndone bareSetup middle (smallPage 0 0x101000) := by
  obtain ⟨middle, first⟩ :
      ∃ middle,
        pgtblCall bareSetup (bareState [2, 3] [])
          (.enter (smallPage 0 0x100000)) = some middle :=
    Option.isSome_iff_exists.mp (by decide +kernel)
  have facts :
      ((pgtblCall bareSetup (bareState [2, 3] [])
          (.enter (smallPage 0 0x100000))).map fun middle =>
        ((halPgtblEnter bareSetup middle
            (smallPage 0 0x101000)).map Prod.fst,
          tableAt bareSetup middle 0 2,
          middle.mem 3 (digit 0 2))) =
        some (some (.error .ebusy), some 3, leafPte 3 0 0x100000) := by
    decide +kernel
  rw [first, Option.map_some, Option.some.injEq, Prod.mk.injEq,
    Prod.mk.injEq] at facts
  obtain ⟨refused, walk, holds⟩ := facts
  have run :
      Run (Guarded (StepKnown bareSetup) (PgtblStep bareSetup))
        (bareState [2, 3] []) [.call (.enter (smallPage 0 0x100000))]
        middle :=
    .snoc .nil
      ⟨⟨fun _ _ => .inr ⟨by decide, fun _ _ _ => bareState_no_leaf _ _ _⟩,
        fun _ _ => rfl⟩, first⟩
  have busy :
      EntryBusy bareSetup middle (smallPage 0 0x101000).vaddr
        (smallPage 0 0x101000).leafDepth :=
    ⟨leafPte 3 0 0x100000, ⟨3, walk, holds⟩, by decide⟩
  have pageAligned : (smallPage 0 0x101000).aligned pageSize = true := by
    decide
  have undone :=
    failureUndone_iff_firstBusy (bareState_new (by decide) (by decide))
      (fun _ _ => rfl) run pageAligned
      (by
        intro after entered
        rw [entered] at refused
        cases refused)
  exact ⟨middle, run, undone.1 busy⟩

/--
Without memory for a table the kernel stops.  A range of two pages whose second
page is in use is refused, and its first page stays mapped.
-/
theorem failed_request_not_undone :
    NewPgtbl bareSetup (bareState [2] []) ∧
      (smallPage 0 0x100000).aligned pageSize = true ∧
      halPgtblEnter bareSetup (bareState [2] []) (smallPage 0 0x100000) =
        none ∧
      NewPgtbl bareSetup (bareState [2, 3] []) ∧
      ∃ middle after,
        Run (PgtblStep bareSetup) (bareState [2, 3] [])
            [.call (.enter (smallPage 0x1000 0x100000))] middle ∧
          halPgtblEnter bareSetup middle
              { smallPage 0 0x200000 with len := 2 * pageSize } =
            some (.error .ebusy, after) ∧
          halPgtblExtract bareSetup middle.mem 0 = .error .enoent ∧
          halPgtblExtract bareSetup after.mem 0 =
            .ok (mappingOf (leafPte 3 0 0x200000) 0) := by
  refine ⟨bareState_new (by decide) (by decide), by decide, ?_,
    bareState_new (by decide) (by decide), ?_⟩
  · have stops :
        (halPgtblEnter bareSetup (bareState [2] [])
          (smallPage 0 0x100000)).isNone = true := by
      decide +kernel
    exact Option.isNone_iff_eq_none.mp stops
  · obtain ⟨middle, executed⟩ :
        ∃ middle,
          execute (pgtblCall bareSetup) (bareState [2, 3] [])
            [.enter (smallPage 0x1000 0x100000)] = some middle :=
      Option.isSome_iff_exists.mp (by decide +kernel)
    have facts :
        ((execute (pgtblCall bareSetup) (bareState [2, 3] [])
            [.enter (smallPage 0x1000 0x100000)]).bind fun middle =>
          (halPgtblEnter bareSetup middle
              { smallPage 0 0x200000 with len := 2 * pageSize }).map
            fun final =>
              (final.1, halPgtblExtract bareSetup middle.mem 0,
                halPgtblExtract bareSetup final.2.mem 0)) =
          some
            (.error .ebusy, .error .enoent,
              .ok (mappingOf (leafPte 3 0 0x200000) 0)) := by
      decide +kernel
    rw [executed, Option.bind_some] at facts
    obtain ⟨⟨result, after⟩, entered, same⟩ := Option.map_eq_some_iff.mp facts
    simp only [Prod.mk.injEq] at same
    obtain ⟨rfl, unmapped, mapped⟩ := same
    exact ⟨middle, after, run_of_calls executed, entered, unmapped, mapped⟩

end RiscvWorkshop.Pgtbl
