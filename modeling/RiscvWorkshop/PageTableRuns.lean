import Mathlib
import RiscvWorkshop.Run
import RiscvWorkshop.PageTableTidy

namespace RiscvWorkshop.Pgtbl

/-!
# Runs of calls on one page table

A run takes calls of `hal_pgtbl_enter`, `hal_pgtbl_extract` and
`hal_pgtbl_remove` in any order, and lets the rest of the kernel work on other
pages in between.  A call that stops the kernel ends a run.
-/

/-- A call on the page table. -/
inductive PgtblCall where
  | enter (request : MapRequest)
  | remove (vaddr flags len : Nat)
  | extract (vaddr : Nat)
deriving Repr, DecidableEq

/-- A step of the system: a call, or work of the rest of the kernel. -/
inductive PgtblAction where
  | call (call : PgtblCall)
  | otherWork
deriving Repr, DecidableEq

/-- The state after a call. -/
def pgtblCall
    (setup : PgtblSetup)
    (state : PgtblState) :
    PgtblCall → Option PgtblState
  | .enter request =>
      (halPgtblEnter setup state request).map Prod.snd
  | .remove vaddr flags len =>
      halPgtblRemove setup state vaddr flags len
  | .extract vaddr =>
      some
        ((extractTrail state.mem vaddr pgtblLvlNr setup.base).foldl
          PgtblState.visit state)

/-- The steps of the system. -/
def PgtblStep
    (setup : PgtblSetup)
    (state : PgtblState) :
    PgtblAction → PgtblState → Prop
  | .call call, after => pgtblCall setup state call = some after
  | .otherWork, after => OtherWork state after

/--
A page table as it is allocated: no table but the base and the kernel's, and no
entry but those copied from the kernel.
-/
structure NewPgtbl
    (setup : PgtblSetup)
    (state : PgtblState) : Prop where
  tree : TreeSound setup state
  tables : state.tables = setup.base :: setup.kernelTables
  unmapped : ∀ idx, setup.OwnSlot setup.base idx → state.mem setup.base idx = 0
  visited : state.visited = []

variable {setup : PgtblSetup}
variable {initial state after : PgtblState}
variable {actions : List PgtblAction}
variable {request : MapRequest}
variable {result : Except Errno Unit}

/-- Calls that the kernel survives make a run. -/
theorem run_of_calls
    {calls : List PgtblCall}
    (executed : execute (pgtblCall setup) state calls = some after) :
    Run (PgtblStep setup) state (calls.map .call) after := by
  induction calls generalizing state with
  | nil =>
      cases executed
      exact .nil
  | cons call rest inductionHypothesis =>
      rw [execute] at executed
      cases stepped : pgtblCall setup state call with
      | none =>
          rw [stepped] at executed
          cases executed
      | some middle =>
          rw [stepped] at executed
          exact Run.cons stepped (inductionHypothesis executed)

/-- A page table that shares nothing with the kernel. -/
def bareSetup : PgtblSetup :=
  { base := 1
    inherited := fun _ => false
    kernelTables := []
    isPfnValid := fun _ => true }

/-- Its state when it is new, with some free pages and some in other use. -/
def bareState (free inUse : List Nat) : PgtblState :=
  { mem := fun _ _ => 0
    usecnt := fun pfn => if pfn = 1 ∨ pfn ∈ inUse then 1 else 0
    free := free
    nrPages := 1
    tables := [1]
    visited := [] }

section Bare

variable {free inUse : List Nat}

theorem bareState_childIn
    (table idx : Nat) :
    childIn (bareState free inUse) table idx = none := by
  have empty : childOf ((bareState free inUse).mem table idx) = none :=
    childOf_of_invalid pteIsValid_zero
  rw [childIn, empty, ite_self]

theorem bareState_no_leaf
    (vaddr level entry : Nat) :
    ¬ LeafAt bareSetup (bareState free inUse) vaddr level entry := by
  rintro ⟨⟨_, _, rfl⟩, valid, _⟩
  exact Bool.false_ne_true (pteIsValid_zero.symm.trans valid)

theorem bareState_new
    (nodup : free.Nodup)
    (fresh : ∀ pfn ∈ free, pfn ≠ 1 ∧ pfn ∉ inUse ∧ pfn < 2 ^ 44) :
    NewPgtbl bareSetup (bareState free inUse) := by
  refine
    { tree := ?_
      tables := rfl
      unmapped := fun _ _ => rfl
      visited := rfl }
  refine
    { base := List.mem_singleton_self 1
      nodup := List.nodup_singleton 1
      pages := rfl
      counted := ?_
      closed := ?_
      oneParent := ?_
      depth := ?_
      inheritedUsed := nofun
      freeNodup := nodup
      freeFresh := ?_ }
  · intro table known
    obtain rfl := List.mem_singleton.mp known
    have noSlots : validSlots bareSetup (bareState free inUse) 1 = ∅ := by
      ext slot
      rw [mem_validSlots]
      constructor
      · rintro ⟨_, _, valid⟩
        exact absurd (pteIsValid_zero.symm.trans valid) Bool.false_ne_true
      · intro impossible
        exact absurd impossible (Finset.notMem_empty slot)
    rw [noSlots]
    simp [bareState]
  · intro table idx below holds
    rw [bareState_childIn] at holds
    cases holds
  · constructor
    · intro first second firstSlot secondSlot below holds
      rw [bareState_childIn] at holds
      cases holds
    · intro table idx holds
      rw [bareState_childIn] at holds
      cases holds
  · intro vaddr
    have stopped : tableAt bareSetup (bareState free inUse) vaddr 1 = none :=
      bareState_childIn 1 _
    exact TreeSound.tableAt_none_of_le stopped (by decide)
  · intro pfn known
    obtain ⟨notBase, notUsed, bound⟩ := fresh pfn known
    refine ⟨fun same => notBase (List.mem_singleton.mp same), ?_, bound⟩
    simp [bareState, notBase, notUsed]

end Bare

/-- A request for one 4 KiB page and one for a 2 MiB page. -/
def smallPage (vaddr paddr : Nat) : MapRequest :=
  { vaddr := vaddr
    paddr := paddr
    prot := vmProtRead ||| vmProtWrite
    flags := 0
    len := pageSize }

def largePage (vaddr paddr prot : Nat) : MapRequest :=
  { vaddr := vaddr
    paddr := paddr
    prot := prot
    flags := 0
    len := halPageSize2M }

/-! ## Tables are tables -/

/-- The writer meets no leaf larger than its page size before it stops. -/
def EnterSound
    (setup : PgtblSetup)
    (state : PgtblState)
    (request : MapRequest) : Prop :=
  PagesMappable setup state request.prot request.leafDepth request.pages
    request.vaddr

/-- The page to remove is an own page, and what it maps is no table. -/
def RemoveSound
    (setup : PgtblSetup)
    (state : PgtblState)
    (unmanaged : Bool)
    (vaddr : Nat) : Prop :=
  setup.OwnAddr vaddr ∧ TargetApart setup state unmanaged vaddr

/-- The condition on a step under which tables stay tables. -/
def StepSound
    (setup : PgtblSetup)
    (state : PgtblState) :
    PgtblAction → Prop
  | .call (.enter request) => EnterSound setup state request
  | .call (.remove vaddr flags len) =>
      RemoveMeets (RemoveSound setup) setup state vaddr flags len
  | _ => True

/-- The reader goes through tables only. -/
theorem extractTrail_tables
    {vaddr depth lvl table : Nat}
    (sound : TreeSound setup state)
    (walk : tableAt setup state vaddr depth = some table)
    (levels : depth + lvl = pgtblLvlNr) :
    ∀ other ∈ extractTrail state.mem vaddr lvl table,
      other ∈ state.tables := by
  induction lvl generalizing depth table with
  | zero =>
      intro other impossible
      cases impossible
  | succ lvl inductionHypothesis =>
      have levelNr : pgtblLvlNr = 3 := rfl
      have index : pgtblCalcIndexVal vaddr lvl = digit vaddr depth := by
        rw [digit, show lvl = 2 - depth by omega]
      have member := sound.mem_tables walk
      have next := sound.tableAt_succ walk
      intro other visited
      rw [extractTrail, walkPgtbl, index] at visited
      cases valid : pteIsValid (state.mem table (digit vaddr depth)) with
      | false =>
          simp only [valid, Bool.false_eq_true, if_false] at visited
          exact List.mem_singleton.mp visited ▸ member
      | true =>
          cases leaf : pteIsLeaf (state.mem table (digit vaddr depth)) with
          | true =>
              simp only [valid, leaf, if_true] at visited
              exact List.mem_singleton.mp visited ▸ member
          | false =>
              simp only [valid, leaf, if_true, Bool.false_eq_true,
                if_false] at visited
              rw [childOf_eq_some.mpr ⟨valid, leaf, rfl⟩] at next
              rcases List.mem_cons.mp visited with rfl | later
              · exact member
              · exact inductionHypothesis next (by omega) other later

/-- Visits of tables change nothing but the record of visits. -/
theorem foldl_visit
    (state : PgtblState)
    (trail : List Nat) :
    ∃ visited,
      trail.foldl PgtblState.visit state = { state with visited := visited } ∧
        (VisitsSound state → (∀ table ∈ trail, table ∈ state.tables) →
          VisitsSound { state with visited := visited }) := by
  induction trail generalizing state with
  | nil =>
      exact ⟨state.visited, rfl, fun visits _ => visits⟩
  | cons table trail inductionHypothesis =>
      obtain ⟨visited, folded, kept⟩ :=
        inductionHypothesis (state.visit table)
      refine ⟨visited, folded, fun visits known => ?_⟩
      exact kept (visits.visit (known table List.mem_cons_self))
        fun other later => known other (List.mem_cons_of_mem table later)

/-- The tree and the record of visits stay sound in a sound step. -/
theorem pgtblStep_sound
    {action : PgtblAction}
    (sound : TreeSound setup state)
    (condition : StepSound setup state action)
    (step : PgtblStep setup state action after) :
    TreeSound setup after := by
  cases action with
  | otherWork =>
      exact step.treeSound sound
  | call call =>
      cases call with
      | enter request =>
          obtain ⟨⟨result, final⟩, entered, rfl⟩ := Option.map_eq_some_iff.mp step
          exact (halPgtblEnter_run sound condition entered).2.treeSound sound
      | extract vaddr =>
          obtain ⟨visited, folded, _⟩ :=
            foldl_visit state
              (extractTrail state.mem vaddr pgtblLvlNr setup.base)
          cases step
          rw [folded]
          exact sound.of_visited visited
      | remove vaddr flags len =>
          apply halPgtblRemove_preserves (TreeSound setup) _ sound condition step
          intro before unmanaged address final beforeSound meets removed
          obtain ⟨middle, level, entry, work, _, run⟩ :=
            removePage_run beforeSound meets.1 meets.2 removed
          exact run.treeSound (work.treeSound beforeSound)

/-- In a run of sound steps the tree stays sound. -/
theorem run_treeSound
    (new : NewPgtbl setup initial)
    (run :
      Run (Guarded (StepSound setup) (PgtblStep setup)) initial actions state) :
    TreeSound setup state :=
  run.invariant new.tree fun sound step => pgtblStep_sound sound step.1 step.2

/--
In a run of sound steps, mapping a range that nothing maps makes the reader find
exactly that range, and every other address as it was.
-/
theorem enter_extract
    (new : NewPgtbl setup initial)
    (run :
      Run (Guarded (StepSound setup) (PgtblStep setup)) initial actions state)
    (wanted : request.prot &&& vmProtMask ≠ 0)
    (noWrap : request.vaddr + request.len < addressSpace)
    (physical : request.paddr + request.len < 2 ^ 56)
    (translated : ∀ vaddr, request.Covers vaddr → InSv39 vaddr)
    (unmapped :
      ∀ vaddr, request.Covers vaddr →
        halPgtblExtract setup state.mem vaddr = .error .enoent)
    (entered : halPgtblEnter setup state request = some (.ok (), after)) :
    (∀ vaddr, request.Covers vaddr →
        halPgtblExtract setup after.mem vaddr =
          .ok (request.mappingAt vaddr)) ∧
      ∀ vaddr, InSv39 vaddr → ¬ request.Covers vaddr →
        halPgtblExtract setup after.mem vaddr =
          halPgtblExtract setup state.mem vaddr :=
  halPgtblEnter_extract (run_treeSound new run) wanted noWrap physical
    translated unmapped entered

theorem enter_extract_twoPages :
    ∃ middle after,
      Run (Guarded (StepSound bareSetup) (PgtblStep bareSetup))
          (bareState [2, 3] []) [.call (.enter (smallPage 0 0x100000))]
          middle ∧
        halPgtblEnter bareSetup middle (smallPage 0x1000 0x101000) =
          some (.ok (), after) ∧
        (∀ vaddr, (smallPage 0x1000 0x101000).Covers vaddr →
          halPgtblExtract bareSetup after.mem vaddr =
            .ok ((smallPage 0x1000 0x101000).mappingAt vaddr)) ∧
        ∀ vaddr, InSv39 vaddr →
          ¬ (smallPage 0x1000 0x101000).Covers vaddr →
          halPgtblExtract bareSetup after.mem vaddr =
            halPgtblExtract bareSetup middle.mem vaddr := by
  obtain ⟨middle, first⟩ :
      ∃ middle,
        pgtblCall bareSetup (bareState [2, 3] [])
          (.enter (smallPage 0 0x100000)) = some middle :=
    Option.isSome_iff_exists.mp (by decide +kernel)
  have facts :
      ((pgtblCall bareSetup (bareState [2, 3] [])
          (.enter (smallPage 0 0x100000))).map fun middle =>
        ((halPgtblEnter bareSetup middle
            (smallPage 0x1000 0x101000)).map Prod.fst,
          halPgtblExtract bareSetup middle.mem 0x1000)) =
        some (some (.ok ()), .error .enoent) := by
    decide +kernel
  rw [first, Option.map_some, Option.some.injEq, Prod.mk.injEq] at facts
  obtain ⟨⟨result, after⟩, second, rfl⟩ := Option.map_eq_some_iff.mp facts.1
  have covered :
      ∀ vaddr, (smallPage 0x1000 0x101000).Covers vaddr →
        0x1000 ≤ vaddr ∧ vaddr < 0x2000 :=
    fun _ => id
  have run :
      Run (Guarded (StepSound bareSetup) (PgtblStep bareSetup))
        (bareState [2, 3] []) [.call (.enter (smallPage 0 0x100000))]
        middle :=
    .snoc .nil
      ⟨fun _ _ => .inr ⟨by decide, fun _ _ _ => bareState_no_leaf _ _ _⟩,
        first⟩
  refine ⟨middle, after, run, second, ?_⟩
  apply enter_extract (bareState_new (by decide) (by decide)) run (by decide)
    (by decide) (by decide) _ _ second
  · intro vaddr inside
    have bounds := covered vaddr inside
    left
    omega
  · intro vaddr inside
    have bounds := covered vaddr inside
    rw [← facts.2]
    apply halPgtblExtract_sameEntry
    rw [sameEntry_iff le_rfl, show targetSize 2 = 2 ^ 12 by decide]
    omega

/--
An entry without access reads as a reference to a table: when its page is a
table, mapping another page makes an address outside its range mapped.
-/
theorem noAccess_entry_breaks_frame :
    NewPgtbl bareSetup (bareState [2, 512] []) ∧
      ∃ middle after,
        Run (PgtblStep bareSetup) (bareState [2, 512] [])
            [.call (.enter (smallPage 0 0x100000)),
              .call (.enter (largePage 0x200000 0x200000 0))] middle ∧
          (∀ vaddr, (smallPage 0x1000 0x101000).Covers vaddr →
            halPgtblExtract bareSetup middle.mem vaddr = .error .enoent) ∧
          halPgtblEnter bareSetup middle (smallPage 0x1000 0x101000) =
            some (.ok (), after) ∧
          InSv39 0x201000 ∧
          ¬ (smallPage 0x1000 0x101000).Covers 0x201000 ∧
          halPgtblExtract bareSetup after.mem 0x201000 ≠
            halPgtblExtract bareSetup middle.mem 0x201000 := by
  refine ⟨bareState_new (by decide) (by decide), ?_⟩
  obtain ⟨middle, executed⟩ :
      ∃ middle,
        execute (pgtblCall bareSetup) (bareState [2, 512] [])
          [.enter (smallPage 0 0x100000),
            .enter (largePage 0x200000 0x200000 0)] = some middle :=
    Option.isSome_iff_exists.mp (by decide +kernel)
  have facts :
      ((execute (pgtblCall bareSetup) (bareState [2, 512] [])
          [.enter (smallPage 0 0x100000),
            .enter (largePage 0x200000 0x200000 0)]).bind fun middle =>
        (halPgtblEnter bareSetup middle (smallPage 0x1000 0x101000)).map
          fun final =>
            (final.1, halPgtblExtract bareSetup middle.mem 0x1000,
              decide (halPgtblExtract bareSetup final.2.mem 0x201000 =
                halPgtblExtract bareSetup middle.mem 0x201000))) =
        some (.ok (), .error .enoent, false) := by
    decide +kernel
  rw [executed, Option.bind_some] at facts
  obtain ⟨⟨result, after⟩, entered, same⟩ := Option.map_eq_some_iff.mp facts
  simp only [Prod.mk.injEq, decide_eq_false_iff_not] at same
  obtain ⟨rfl, unmapped, changed⟩ := same
  refine ⟨middle, after, run_of_calls executed, ?_, entered,
    by left; decide, fun covered => absurd covered.2 (by decide), changed⟩
  intro vaddr inside
  have bounds : 0x1000 ≤ vaddr ∧ vaddr < 0x2000 := inside
  rw [← unmapped]
  apply halPgtblExtract_sameEntry
  rw [sameEntry_iff le_rfl, show targetSize 2 = 2 ^ 12 by decide]
  omega

/-! ## Data pages are apart -/

/--
The range of a request overlaps no leaf and asks for an access, or its first
entry on the level of the page size is in use.
-/
def EnterApart
    (setup : PgtblSetup)
    (state : PgtblState)
    (request : MapRequest) : Prop :=
  (request.pages ≠ 0 ∧
      EntryBusy setup state request.vaddr request.leafDepth) ∨
    ((request.pages ≠ 0 → request.prot &&& vmProtMask ≠ 0) ∧
      ∀ vaddr, request.Covers vaddr →
        ∀ level entry, ¬ LeafAt setup state vaddr level entry)

/-- The condition on a step under which data pages stay apart from tables. -/
def StepApart
    (setup : PgtblSetup)
    (state : PgtblState) :
    PgtblAction → Prop
  | .call (.enter request) => EnterApart setup state request
  | .call (.remove _ _ _) => False
  | _ => True

/-- The pages of the loop lie in the range of the request. -/
theorem MapRequest.covers_page
    (pageAligned : request.aligned pageSize = true)
    {page : Nat}
    (bound : page < request.pages) :
    request.Covers (request.vaddr + page * targetSize request.leafDepth) := by
  have finish :=
    request.vaddr_add_pages pageAligned (Nat.ne_zero_of_lt bound)
  have inside :=
    Nat.mul_lt_mul_of_pos_right bound (targetSize_pos request.leafDepth)
  have wrapped : request.vaddrEnd ≤ request.vaddr + request.len :=
    Nat.mod_le _ _
  constructor <;> omega

/-- Such a request meets no larger leaf before it stops. -/
theorem EnterApart.enterSound
    (apart : EnterApart setup state request)
    (pageAligned : request.aligned pageSize = true) :
    EnterSound setup state request := by
  intro page bound
  rcases apart with ⟨_, busy⟩ | ⟨wanted, noLeaf⟩
  · left
    refine ⟨0, Nat.zero_le _, ?_⟩
    rw [Nat.zero_mul, Nat.add_zero]
    exact busy
  · right
    exact ⟨wanted (Nat.ne_zero_of_lt bound), fun level _ entry =>
      noLeaf _ (MapRequest.covers_page pageAligned bound) level entry⟩

/-- A request that the kernel does not stop at has aligned bounds. -/
theorem aligned_of_halPgtblEnter
    (entered : halPgtblEnter setup state request = some (result, after)) :
    request.aligned pageSize = true := by
  unfold halPgtblEnter at entered
  split_ifs at entered with pageAligned
  exact pageAligned

/-- In such a run every step is sound. -/
theorem stepSound_of_stepApart
    {action : PgtblAction}
    (apart : StepApart setup state action)
    (step : PgtblStep setup state action after) :
    StepSound setup state action := by
  cases action with
  | otherWork =>
      trivial
  | call call =>
      cases call with
      | enter request =>
          obtain ⟨⟨result, final⟩, entered, _⟩ := Option.map_eq_some_iff.mp step
          exact EnterApart.enterSound apart (aligned_of_halPgtblEnter entered)
      | remove =>
          exact apart.elim
      | extract =>
          trivial

/-- The tree is sound, and writer and reader went through tables only. -/
theorem run_visitsSound
    (new : NewPgtbl setup initial)
    (run :
      Run (Guarded (StepApart setup) (PgtblStep setup)) initial actions state) :
    TreeSound setup state ∧ VisitsSound state := by
  apply run.invariant
  · refine ⟨new.tree, ?_⟩
    rw [VisitsSound, new.visited]
    intro visit impossible
    cases impossible
  · rintro source action target ⟨sound, visits⟩ ⟨apart, step⟩
    have condition := stepSound_of_stepApart apart step
    refine ⟨pgtblStep_sound sound condition step, ?_⟩
    cases action with
    | otherWork =>
        intro visit known
        rw [step.visited] at known
        exact visits visit known
    | call call =>
        cases call with
        | enter request =>
            obtain ⟨⟨result, final⟩, entered, rfl⟩ :=
              Option.map_eq_some_iff.mp step
            exact (halPgtblEnter_run sound condition entered).2.visitsSound
              sound visits
        | extract vaddr =>
            obtain ⟨visited, folded, kept⟩ :=
              foldl_visit source
                (extractTrail source.mem vaddr pgtblLvlNr setup.base)
            cases step
            rw [folded]
            exact kept visits
              (extractTrail_tables sound
                (show tableAt setup source vaddr 0 = some setup.base from rfl)
                (Nat.zero_add _))
        | remove =>
            exact apart.elim

/--
In a run of requests apart from all leaves, or refused at their first page,
writer and reader go through tables only, the next such request writes no data
page, and one that overlaps a leaf is refused and changes no entry.
-/
theorem data_pages_apart
    (new : NewPgtbl setup initial)
    (run :
      Run (Guarded (StepApart setup) (PgtblStep setup)) initial actions state) :
    VisitsSound state ∧
      ∀ request result after,
        EnterApart setup state request →
        halPgtblEnter setup state request = some (result, after) →
          DataKept state after ∧
            ((∃ vaddr level entry,
                request.Covers vaddr ∧
                  LeafAt setup state vaddr level entry) →
              result = .error .ebusy ∧ after.mem = state.mem) := by
  obtain ⟨sound, visits⟩ := run_visitsSound new run
  refine ⟨visits, ?_⟩
  intro request result after apart entered
  have condition := apart.enterSound (aligned_of_halPgtblEnter entered)
  obtain ⟨_, enterRun⟩ := halPgtblEnter_run sound condition entered
  refine ⟨enterRun.dataKept sound, ?_⟩
  rintro ⟨vaddr, level, entry, covered, leaf⟩
  rcases apart with ⟨nonempty, busy⟩ | ⟨_, noLeaf⟩
  · obtain ⟨refused, visited, rfl⟩ := enterRun.eq_of_busy sound nonempty busy
    exact ⟨refused, rfl⟩
  · exact absurd leaf (noLeaf vaddr covered level entry)

theorem data_pages_apart_refused :
    ∃ middle after,
      Run (Guarded (StepApart bareSetup) (PgtblStep bareSetup))
          (bareState [2, 3] [1024])
          [.call (.enter (largePage 0x200000 0x400000 3))] middle ∧
        VisitsSound middle ∧
        halPgtblEnter bareSetup middle (largePage 0x200000 0x400000 3) =
          some (.error .ebusy, after) ∧
        DataKept middle after ∧ after.mem = middle.mem := by
  obtain ⟨middle, first⟩ :
      ∃ middle,
        pgtblCall bareSetup (bareState [2, 3] [1024])
          (.enter (largePage 0x200000 0x400000 3)) = some middle :=
    Option.isSome_iff_exists.mp (by decide +kernel)
  have facts :
      ((pgtblCall bareSetup (bareState [2, 3] [1024])
          (.enter (largePage 0x200000 0x400000 3))).map fun middle =>
        ((halPgtblEnter bareSetup middle
            (largePage 0x200000 0x400000 3)).map Prod.fst,
          tableAt bareSetup middle 0x200000 1,
          middle.mem 2 (digit 0x200000 1))) =
        some
          (some (.error .ebusy), some 2, leafPte 3 0 0x400000) := by
    decide +kernel
  rw [first, Option.map_some, Option.some.injEq, Prod.mk.injEq,
    Prod.mk.injEq] at facts
  obtain ⟨entered, walk, holds⟩ := facts
  obtain ⟨⟨result, after⟩, second, rfl⟩ := Option.map_eq_some_iff.mp entered
  have run :
      Run (Guarded (StepApart bareSetup) (PgtblStep bareSetup))
        (bareState [2, 3] [1024])
        [.call (.enter (largePage 0x200000 0x400000 3))] middle :=
    .snoc .nil
      ⟨.inr ⟨fun _ => by decide, fun _ _ _ _ => bareState_no_leaf _ _ _⟩,
        first⟩
  have found :
      EntryAt bareSetup middle 0x200000 1 (leafPte 3 0 0x400000) :=
    ⟨2, walk, holds⟩
  obtain ⟨visits, next⟩ :=
    data_pages_apart (bareState_new (by decide) (by decide)) run
  obtain ⟨kept, refused⟩ :=
    next _ _ after (.inl ⟨by decide, _, found, by decide⟩) second
  exact ⟨middle, after, run, visits, second, kept,
    (refused ⟨0x200000, 1, _, ⟨by decide, by decide⟩, found, by decide,
      by decide⟩).2⟩

/--
Below a leaf of two megabytes the writer takes the mapped page for a table and
writes an entry into it.
-/
theorem enter_below_leaf_writes_data :
    NewPgtbl bareSetup (bareState [2, 3] [1024]) ∧
      ∃ middle after mapping,
        Run (PgtblStep bareSetup) (bareState [2, 3] [1024])
            [.call (.enter (largePage 0x200000 0x400000 3))] middle ∧
          (smallPage 0x201000 0x100000).Covers 0x201000 ∧
          halPgtblExtract bareSetup middle.mem 0x201000 = .ok mapping ∧
          halPgtblEnter bareSetup middle (smallPage 0x201000 0x100000) =
            some (.ok (), after) ∧
          1024 ∉ middle.tables ∧ 1024 ∉ middle.free ∧
          after.mem 1024 1 ≠ middle.mem 1024 1 ∧ ¬ VisitsSound after := by
  refine ⟨bareState_new (by decide) (by decide), ?_⟩
  obtain ⟨middle, executed⟩ :
      ∃ middle,
        execute (pgtblCall bareSetup) (bareState [2, 3] [1024])
          [.enter (largePage 0x200000 0x400000 3)] = some middle :=
    Option.isSome_iff_exists.mp (by decide +kernel)
  have facts :
      ((execute (pgtblCall bareSetup) (bareState [2, 3] [1024])
          [.enter (largePage 0x200000 0x400000 3)]).bind fun middle =>
        (halPgtblEnter bareSetup middle (smallPage 0x201000 0x100000)).map
          fun final =>
            (final.1,
              decide (halPgtblExtract bareSetup middle.mem 0x201000 =
                .ok (mappingOf (leafPte 3 0 0x400000) 1)),
              decide (1024 ∉ middle.tables ∧ 1024 ∉ middle.free ∧
                final.2.mem 1024 1 ≠ middle.mem 1024 1 ∧
                (1024, false) ∈ final.2.visited))) =
        some (.ok (), true, true) := by
    decide +kernel
  rw [executed, Option.bind_some] at facts
  obtain ⟨⟨result, after⟩, entered, same⟩ := Option.map_eq_some_iff.mp facts
  simp only [Prod.mk.injEq, decide_eq_true_eq] at same
  obtain ⟨rfl, extracted, notTable, notFree, written, visited⟩ := same
  exact ⟨middle, after, _, run_of_calls executed, ⟨by decide, by decide⟩,
    extracted, entered, notTable, notFree, written,
    fun visits => Bool.false_ne_true (visits _ visited)⟩

/-! ## No table is leaked -/

/-- The condition on a step under which no table is leaked. -/
def StepTidy
    (setup : PgtblSetup)
    (state : PgtblState) :
    PgtblAction → Prop
  | .call (.enter request) =>
      EnterSound setup state request ∧
        ∀ vaddr, request.Covers vaddr → setup.OwnAddr vaddr
  | .call (.remove vaddr flags len) =>
      RemoveMeets
        (fun state unmanaged vaddr =>
          RemoveSound setup state unmanaged vaddr ∧
            FreesEmptied setup state vaddr)
        setup state vaddr flags len
  | _ => True

/-- What the counts of a page table say. -/
structure Accounted
    (setup : PgtblSetup)
    (state : PgtblState) : Prop where
  counted :
    ∀ table ∈ state.tables,
      state.usecnt table = 1 + (validSlots setup state table).card
  pages :
    state.nrPages = ({table | Reached setup state table} : Set Nat).ncard
  used :
    ∀ table, Reached setup state table → table ≠ setup.base →
      (validSlots setup state table).Nonempty
  unmapped :
    (∀ vaddr, setup.OwnAddr vaddr →
        halPgtblExtract setup state.mem vaddr = .error .enoent) →
      state.nrPages = 1

theorem NewPgtbl.tidy
    (new : NewPgtbl setup state) :
    Tidy setup state := by
  have onlyBase : ∀ {table}, Reached setup state table → table = setup.base := by
    rintro table (isBase | ⟨vaddr, depth, own, walk⟩)
    · exact isBase
    · cases depth with
      | zero =>
          exact (Option.some.inj walk).symm
      | succ depth =>
          -- the first entry of an own address is empty
          obtain ⟨next, nextWalk⟩ :=
            TreeSound.tableAt_some_of_le walk (Nat.succ_le_succ (Nat.zero_le _))
          have baseWalk : tableAt setup state vaddr 0 = some setup.base := rfl
          rw [new.tree.tableAt_succ baseWalk,
            new.unmapped _ (new.tree.ownSlot own baseWalk),
            childOf_of_invalid pteIsValid_zero] at nextWalk
          cases nextWalk
  have nodup := new.tree.nodup
  rw [new.tables, List.nodup_cons] at nodup
  refine
    { kernelKept := fun table known => ?_
      kernelApart := fun reached => ?_
      reached := fun table known => ?_
      used := fun reached => .inl (onlyBase reached) }
  · rw [new.tables]
    exact List.mem_cons_of_mem _ known
  · rw [onlyBase reached]
    exact nodup.1
  · rw [new.tables] at known
    exact (List.mem_cons.mp known).symm.imp_right .inl

/-- A step under the condition keeps the tree sound and tidy. -/
theorem pgtblStep_tidy
    {action : PgtblAction}
    (sound : TreeSound setup state)
    (tidy : Tidy setup state)
    (condition : StepTidy setup state action)
    (step : PgtblStep setup state action after) :
    TreeSound setup after ∧ Tidy setup after := by
  cases action with
  | otherWork =>
      exact ⟨step.treeSound sound, tidy.otherWork sound step⟩
  | call call =>
      cases call with
      | enter request =>
          obtain ⟨⟨result, final⟩, entered, rfl⟩ :=
            Option.map_eq_some_iff.mp step
          obtain ⟨pageAligned, run⟩ :=
            halPgtblEnter_run sound condition.1 entered
          refine ⟨run.treeSound sound, run.tidy sound ?_ ?_ tidy⟩
          · intro nonempty
            rw [request.vaddr_add_pages pageAligned nonempty]
            exact Nat.mod_lt _ (by decide)
          · intro page bound
            exact condition.2 _ (MapRequest.covers_page pageAligned bound)
      | extract vaddr =>
          obtain ⟨visited, folded, _⟩ :=
            foldl_visit state
              (extractTrail state.mem vaddr pgtblLvlNr setup.base)
          cases step
          rw [folded]
          exact ⟨sound.of_visited visited, tidy.of_visited visited⟩
      | remove vaddr flags len =>
          refine halPgtblRemove_preserves
            (fun state => TreeSound setup state ∧ Tidy setup state)
            ?_ ⟨sound, tidy⟩ condition step
          rintro before unmanaged address final ⟨beforeSound, beforeTidy⟩
            ⟨meets, frees⟩ removed
          obtain ⟨middle, level, entry, work, ⟨found, valid, leaf⟩, run⟩ :=
            removePage_run beforeSound meets.1 meets.2 removed
          have middleSound := work.treeSound beforeSound
          refine ⟨run.treeSound middleSound, ?_⟩
          exact run.tidy middleSound meets.1
            ⟨(work.entryAt beforeSound).mpr found, valid, leaf⟩
            (frees.otherWork beforeSound work)
            (beforeTidy.otherWork beforeSound work)

/-- A sound and tidy page table is accounted for. -/
theorem Tidy.accounted
    (tidy : Tidy setup state)
    (sound : TreeSound setup state)
    (kernelNodup : setup.kernelTables.Nodup) :
    Accounted setup state := by
  have reachedSet :
      ({table | Reached setup state table} : Set Nat) =
        ↑(state.tables.toFinset \ setup.kernelTables.toFinset) := by
    ext table
    simp only [Set.mem_ofPred_eq, Finset.coe_sdiff, Set.mem_sdiff,
      List.coe_toFinset]
    constructor
    · intro reached
      exact ⟨reached.mem_tables sound, tidy.kernelApart reached⟩
    · rintro ⟨known, notKernel⟩
      exact (tidy.reached table known).resolve_left notKernel
  have kernelSubset :
      setup.kernelTables.toFinset ⊆ state.tables.toFinset := by
    intro table known
    rw [List.mem_toFinset] at known ⊢
    exact tidy.kernelKept table known
  have pages :
      state.nrPages =
        ({table | Reached setup state table} : Set Nat).ncard := by
    have lengths := Finset.card_sdiff_add_card_eq_card kernelSubset
    rw [List.toFinset_card_of_nodup sound.nodup,
      List.toFinset_card_of_nodup kernelNodup] at lengths
    have total := sound.pages
    rw [reachedSet, Set.ncard_coe_finset]
    omega
  refine
    { counted := sound.counted
      pages := pages
      used := fun table reached notBase =>
        ((tidy.used reached).resolve_left notBase).resolve_left nofun
      unmapped := ?_ }
  intro unmapped
  have onlyBase :
      ({table | Reached setup state table} : Set Nat) = {setup.base} := by
    ext table
    constructor
    · rintro (isBase | ⟨vaddr, depth, own, walk⟩)
      · exact isBase
      · cases depth with
        | zero =>
            exact (Option.some.inj walk).symm
        | succ depth =>
            obtain ⟨address, level, entry, addressOwn, _, _, leaf⟩ :=
              tidy.exists_leaf sound own (Nat.succ_pos depth) walk
            have found := halPgtblExtract_of_leaf sound leaf
            rw [unmapped address addressOwn] at found
            cases found
    · intro isBase
      exact .inl isBase
  rw [pages, onlyBase, Set.ncard_singleton]
  rfl

/--
In a run that maps own addresses under no larger leaf, and removes pages whose
removal frees what it empties, every use count counts the valid entries, the
number of pages is the number of reached tables, each of them but the base
holds an entry, and one page is left when nothing is mapped.
-/
theorem tables_accounted
    (new : NewPgtbl setup initial)
    (run :
      Run (Guarded (StepTidy setup) (PgtblStep setup)) initial actions state) :
    Accounted setup state := by
  have nodup := new.tree.nodup
  rw [new.tables, List.nodup_cons] at nodup
  obtain ⟨sound, tidy⟩ :=
    (run.invariant ⟨new.tree, new.tidy⟩
      fun kept step => pgtblStep_tidy kept.1 kept.2 step.1 step.2 :
        TreeSound setup state ∧ Tidy setup state)
  exact tidy.accounted sound nodup.2

theorem tables_accounted_mapAndRemove :
    ∃ after,
      Run (Guarded (StepTidy bareSetup) (PgtblStep bareSetup))
          (bareState [2, 3] [])
          [.call (.enter (smallPage 0 0x100000)),
            .call (.remove 0 vmFlagsUnmanaged pageSize)] after ∧
        Accounted bareSetup after := by
  obtain ⟨middle, first⟩ :
      ∃ middle,
        pgtblCall bareSetup (bareState [2, 3] [])
          (.enter (smallPage 0 0x100000)) = some middle :=
    Option.isSome_iff_exists.mp (by decide +kernel)
  have facts :
      ((pgtblCall bareSetup (bareState [2, 3] [])
          (.enter (smallPage 0 0x100000))).map fun middle =>
        ((halPgtblRemove bareSetup middle 0 vmFlagsUnmanaged pageSize).isSome,
          halPgtblExtract bareSetup middle.mem 0,
          [tableAt bareSetup middle 0 0, tableAt bareSetup middle 0 1,
            tableAt bareSetup middle 0 2],
          [validSlots bareSetup middle 1, validSlots bareSetup middle 2,
            validSlots bareSetup middle 3])) =
        some
          (true, .ok (mappingOf (leafPte 3 0 0x100000) 0),
            [some 1, some 2, some 3], [{0}, {0}, {0}]) := by
    decide +kernel
  rw [first, Option.map_some] at facts
  simp only [Option.some.injEq, Prod.mk.injEq, List.cons.injEq,
    and_true] at facts
  obtain ⟨removed, extracted, ⟨top, upper, lower⟩, slots⟩ := facts
  obtain ⟨after, second⟩ := Option.isSome_iff_exists.mp removed
  have enterSound :
      StepSound bareSetup (bareState [2, 3] [])
        (.call (.enter (smallPage 0 0x100000))) :=
    fun _ _ => .inr ⟨by decide, fun _ _ _ => bareState_no_leaf _ _ _⟩
  have new : NewPgtbl bareSetup (bareState [2, 3] []) :=
    bareState_new (by decide) (by decide)
  have middleSound : TreeSound bareSetup middle :=
    pgtblStep_sound new.tree enterSound first
  refine ⟨after, ?_⟩
  have run :
      Run (Guarded (StepTidy bareSetup) (PgtblStep bareSetup))
        (bareState [2, 3] [])
        [.call (.enter (smallPage 0 0x100000)),
          .call (.remove 0 vmFlagsUnmanaged pageSize)] after := by
    refine .snoc (.snoc .nil ⟨⟨enterSound, fun _ _ => rfl⟩, first⟩) ⟨?_, second⟩
    apply RemoveMeets.of_one
    · refine ⟨⟨rfl, fun managed => absurd managed (by decide)⟩, ?_⟩
      rintro level entry ⟨⟨leafTable, leafWalk, _⟩, _⟩
      -- the way to the page holds no other entry
      right
      right
      have bound := middleSound.depth_lt leafWalk
      rw [pgtblLvlNr] at bound
      intro other otherBound table walk
      have cases : other = 0 ∨ other = 1 ∨ other = 2 := by omega
      rcases cases with rfl | rfl | rfl
      · rw [top] at walk
        cases walk
        exact slots.1
      · rw [upper] at walk
        cases walk
        exact slots.2.1
      · rw [lower] at walk
        cases walk
        exact slots.2.2
    · rw [extracted]
      decide
    · rw [extracted]
      decide
  exact ⟨run, tables_accounted new run⟩

/--
When two pages share an upper table, removing the first leaks its table: after
both are removed nothing is mapped, and two pages are still counted.
-/
theorem remove_leaks_table :
    NewPgtbl bareSetup (bareState [2, 3, 4] []) ∧
      ∃ after,
        Run (PgtblStep bareSetup) (bareState [2, 3, 4] [])
            [.call (.enter (smallPage 0 0x100000)),
              .call (.enter (smallPage 0x200000 0x101000)),
              .call (.remove 0 vmFlagsUnmanaged pageSize),
              .call (.remove 0x200000 vmFlagsUnmanaged pageSize)] after ∧
          (∀ vaddr,
            halPgtblExtract bareSetup after.mem vaddr = .error .enoent) ∧
          after.nrPages = 2 := by
  refine ⟨bareState_new (by decide) (by decide), ?_⟩
  obtain ⟨after, executed⟩ :
      ∃ after,
        execute (pgtblCall bareSetup) (bareState [2, 3, 4] [])
          [.enter (smallPage 0 0x100000),
            .enter (smallPage 0x200000 0x101000),
            .remove 0 vmFlagsUnmanaged pageSize,
            .remove 0x200000 vmFlagsUnmanaged pageSize] = some after :=
    Option.isSome_iff_exists.mp (by decide +kernel)
  have facts :
      ((execute (pgtblCall bareSetup) (bareState [2, 3, 4] [])
          [.enter (smallPage 0 0x100000),
            .enter (smallPage 0x200000 0x101000),
            .remove 0 vmFlagsUnmanaged pageSize,
            .remove 0x200000 vmFlagsUnmanaged pageSize]).map fun after =>
        (decide (∀ idx < pgtblEntriesNr, after.mem 1 idx = 0),
          after.nrPages)) =
        some (true, 2) := by
    decide +kernel
  rw [executed, Option.map_some, Option.some.injEq, Prod.mk.injEq,
    decide_eq_true_eq] at facts
  refine ⟨after, run_of_calls executed, ?_, facts.2⟩
  intro vaddr
  have empty : after.mem 1 (pgtblCalcIndexVal vaddr 2) = 0 :=
    facts.1 _ (digit_lt vaddr 0)
  have base : bareSetup.base = 1 := rfl
  rw [halPgtblExtract, pgtblLvlNr, extractLoop, walkPgtbl, base, empty,
    pteIsValid_zero]
  rfl

end RiscvWorkshop.Pgtbl
