import Mathlib
import RiscvWorkshop.VmUnmap

namespace RiscvWorkshop.Vm

open Pgtbl

/-!
# Pages held since a state

A call that takes pages and gives them back on an error is followed by the list
of the pages that it holds: everything else is as it was before the call.  The
page table of a new process holds its base, and one page at a time is mapped in
it, with the tables on the way to it.
-/

variable {before middle after : VmState}
variable {held rest : List Nat}
variable {isPfnValid : Nat → Bool}

/-- The free pages are unused pages that the page frame database knows. -/
structure PoolReady
    (isPfnValid : Nat → Bool)
    (state : VmState) : Prop where
  nodup : state.pgtbl.free.Nodup
  unused : ∀ pfn ∈ state.pgtbl.free, state.pgtbl.usecnt pfn = 0
  bound : ∀ pfn ∈ state.pgtbl.free, pfn < 2 ^ 44
  known : ∀ pfn ∈ state.pgtbl.free, isPfnValid pfn = true

/-- Pages taken from the pool since a state, apart from which nothing changed. -/
structure Held
    (before after : VmState)
    (held : List Nat) : Prop where
  free : (held ++ after.pgtbl.free).Perm before.pgtbl.free
  usecnt :
    ∀ pfn ∉ held, after.pgtbl.usecnt pfn = before.pgtbl.usecnt pfn
  mem :
    ∀ pfn ∉ before.pgtbl.free, after.pgtbl.mem pfn = before.pgtbl.mem pfn
  order : ∀ pfn ∉ before.pgtbl.free, after.order pfn = before.order pfn

theorem Held.refl (state : VmState) : Held state state [] where
  free := List.Perm.refl _
  usecnt := fun _ _ => rfl
  mem := fun _ _ => rfl
  order := fun _ _ => rfl

namespace Held

theorem nodup
    (holds : Held before after held)
    (ready : PoolReady isPfnValid before) :
    (held ++ after.pgtbl.free).Nodup :=
  holds.free.nodup_iff.mpr ready.nodup

/-- What is held or free was free before. -/
theorem mem_free
    {pfn : Nat}
    (holds : Held before after held)
    (member : pfn ∈ held ∨ pfn ∈ after.pgtbl.free) :
    pfn ∈ before.pgtbl.free :=
  holds.free.subset (List.mem_append.mpr member)

/-- A free page is unused and not held. -/
theorem unused
    {pfn : Nat}
    (holds : Held before after held)
    (ready : PoolReady isPfnValid before)
    (free : pfn ∈ after.pgtbl.free) :
    pfn ∉ held ∧ after.pgtbl.usecnt pfn = 0 := by
  have apart : pfn ∉ held := fun isHeld =>
    List.disjoint_of_nodup_append (holds.nodup ready) isHeld free
  exact ⟨apart, (holds.usecnt pfn apart).trans
    (ready.unused pfn (holds.mem_free (.inr free)))⟩

/-- Work on held pages. -/
theorem touch
    (holds : Held before middle held)
    (free : after.pgtbl.free = middle.pgtbl.free)
    (order : after.order = middle.order)
    (others :
      ∀ pfn ∉ held,
        after.pgtbl.usecnt pfn = middle.pgtbl.usecnt pfn ∧
          after.pgtbl.mem pfn = middle.pgtbl.mem pfn) :
    Held before after held where
  free := free ▸ holds.free
  usecnt := fun pfn apart =>
    (others pfn apart).1.trans (holds.usecnt pfn apart)
  mem := fun pfn used =>
    (others pfn fun isHeld => used (holds.mem_free (.inl isHeld))).2.trans
      (holds.mem pfn used)
  order := fun pfn used => order ▸ holds.order pfn used

/-- Pages are taken from the pool, and held ones may be worked on. -/
theorem take
    (pages : List Nat)
    (holds : Held before middle held)
    (free : (pages ++ after.pgtbl.free).Perm middle.pgtbl.free)
    (order : ∀ pfn ∉ pages, after.order pfn = middle.order pfn)
    (others :
      ∀ pfn ∉ pages ++ held,
        after.pgtbl.usecnt pfn = middle.pgtbl.usecnt pfn ∧
          after.pgtbl.mem pfn = middle.pgtbl.mem pfn) :
    Held before after (pages ++ held) := by
  have notTaken : ∀ pfn ∉ before.pgtbl.free, pfn ∉ pages :=
    fun pfn used isTaken =>
      used (holds.mem_free
        (.inr (free.subset (List.mem_append_left _ isTaken))))
  refine
    { free := ?_
      usecnt := fun pfn apart => ?_
      mem := fun pfn used => ?_
      order := fun pfn used =>
        (order pfn (notTaken pfn used)).trans (holds.order pfn used) }
  · have swapped :
        (pages ++ held ++ after.pgtbl.free).Perm
          (held ++ (pages ++ after.pgtbl.free)) := by
      rw [← List.append_assoc]
      exact List.perm_append_comm.append_right _
    exact swapped.trans ((free.append_left held).trans holds.free)
  · have notHeld : pfn ∉ held := fun isHeld =>
      apart (List.mem_append_right _ isHeld)
    exact (others pfn apart).1.trans (holds.usecnt pfn notHeld)
  · have apart : pfn ∉ pages ++ held := by
      rw [List.mem_append, not_or]
      exact ⟨notTaken pfn used, fun isHeld =>
        used (holds.mem_free (.inl isHeld))⟩
    exact (others pfn apart).2.trans (holds.mem pfn used)

/-- Pages without users are returned to the pool. -/
theorem give
    (pages : List Nat)
    (holds : Held before middle held)
    (ready : PoolReady isPfnValid before)
    (parts : held.Perm (pages ++ rest))
    (free : after.pgtbl.free.Perm (middle.pgtbl.free ++ pages))
    (order : after.order = middle.order)
    (unused : ∀ pfn ∈ pages, after.pgtbl.usecnt pfn = 0)
    (others :
      ∀ pfn ∉ held,
        after.pgtbl.usecnt pfn = middle.pgtbl.usecnt pfn ∧
          after.pgtbl.mem pfn = middle.pgtbl.mem pfn) :
    Held before after rest := by
  refine
    { free := ?_
      usecnt := fun pfn apart => ?_
      mem := fun pfn used =>
        (others pfn fun isHeld => used (holds.mem_free (.inl isHeld))).2.trans
          (holds.mem pfn used)
      order := fun pfn used => order ▸ holds.order pfn used }
  · have returned :
        (rest ++ after.pgtbl.free).Perm
          (rest ++ (pages ++ middle.pgtbl.free)) :=
      (free.trans List.perm_append_comm).append_left rest
    have together :
        (rest ++ (pages ++ middle.pgtbl.free)).Perm
          (held ++ middle.pgtbl.free) := by
      rw [← List.append_assoc]
      exact (List.perm_append_comm.trans parts.symm).append_right _
    exact returned.trans (together.trans holds.free)
  · by_cases isHeld : pfn ∈ held
    · have given : pfn ∈ pages :=
        (List.mem_append.mp (parts.subset isHeld)).resolve_right apart
      exact (unused pfn given).trans
        (ready.unused pfn (holds.mem_free (.inl isHeld))).symm
    · exact (others pfn isHeld).1.trans (holds.usecnt pfn isHeld)

/-- What is free later was ready before. -/
theorem poolReady
    (holds : Held before after held)
    (ready : PoolReady isPfnValid before) :
    PoolReady isPfnValid after where
  nodup := (List.nodup_append.mp (holds.nodup ready)).2.1
  unused := fun _ free => (holds.unused ready free).2
  bound := fun pfn free => ready.bound pfn (holds.mem_free (.inr free))
  known := fun pfn free => ready.known pfn (holds.mem_free (.inr free))

/-- A call that gives back all that it took is not seen. -/
theorem trans
    (holds : Held before middle held)
    (nothing : Held middle after []) :
    Held before after held where
  free := (nothing.free.append_left held).trans holds.free
  usecnt := fun pfn apart =>
    (nothing.usecnt pfn List.not_mem_nil).trans (holds.usecnt pfn apart)
  mem := fun pfn used =>
    (nothing.mem pfn fun free => used (holds.mem_free (.inr free))).trans
      (holds.mem pfn used)
  order := fun pfn used =>
    (nothing.order pfn fun free => used (holds.mem_free (.inr free))).trans
      (holds.order pfn used)

end Held

/-- A cluster that is returned at once leaves the pool as it was. -/
theorem held_of_cluster
    {pool : PagePool}
    {order pfn : Nat}
    {last : Bool}
    (ready : PoolReady isPfnValid before)
    (taken : pgifGetFreePageCluster pool before order = some (pfn, middle))
    (returned : pfdbDecPageUseCount middle pfn = some (last, after)) :
    Held before after [] ∧ after.pgtbl.nrPages = before.pgtbl.nrPages := by
  obtain ⟨head, dequeued, same⟩ := Option.map_eq_some_iff.mp taken
  have inside := pool.dequeue_free dequeued
  cases same
  simp only [pfdbDecPageUseCount, Function.update_self, sub_self, lt_irrefl,
    if_false, if_true, Option.some.injEq, Prod.mk.injEq] at returned
  obtain ⟨_, rfl⟩ := returned
  have parts :
      (cluster pfn order ++
          before.pgtbl.free.filter (· ∉ cluster pfn order)).Perm
        before.pgtbl.free := by
    refine (List.perm_ext_iff_of_nodup ?_ ready.nodup).mpr fun frame => ?_
    · refine List.nodup_append'.mpr
        ⟨nodup_cluster pfn order, ready.nodup.filter _, ?_⟩
      intro frame isTaken rest
      simp [isTaken] at rest
    · by_cases isTaken : frame ∈ cluster pfn order
      · simp [isTaken, inside isTaken]
      · simp [isTaken]
  refine
    ⟨{ free := ?_
       usecnt := fun frame _ => ?_
       mem := fun frame used => if_neg fun isTaken => used (inside isTaken)
       order := fun frame used => Function.update_of_ne ?_ .. }, rfl⟩
  · show
      (before.pgtbl.free.filter (· ∉ cluster pfn order) ++
        cluster pfn order).Perm _
    exact List.perm_append_comm.trans parts
  · by_cases isHead : frame = pfn
    · subst isHead
      exact (Function.update_self ..).trans
        (ready.unused frame (inside (head_mem_cluster frame order))).symm
    · exact (Function.update_of_ne isHead ..).trans
        (Function.update_of_ne isHead ..)
  · rintro rfl
    exact used (inside (head_mem_cluster frame order))

/-! ## One page in an empty slot of the base -/

variable {setup : PgtblSetup}
variable {pgtbl : PgtblState}
variable {vaddr pte frame upper lower : Nat}

/-- The base, and the two tables on the way to a page. -/
def pathTables (setup : PgtblSetup) (upper lower : Nat) : List Nat :=
  [setup.base, upper, lower]

/-- Three tables with one entry each that lead to an entry of the lowest level. -/
structure PagePath
    (setup : PgtblSetup)
    (pgtbl : PgtblState)
    (vaddr upper lower pte : Nat) : Prop where
  known :
    ∀ table ∈ pathTables setup upper lower, setup.isPfnValid table = true
  bound : upper < 2 ^ 44 ∧ lower < 2 ^ 44
  apart : (pathTables setup upper lower).Nodup
  first :
    pgtbl.mem setup.base (pgtblCalcIndexVal vaddr 2) =
      tablePte (upper <<< pageShift)
  second :
    pgtbl.mem upper (pgtblCalcIndexVal vaddr 1) =
      tablePte (lower <<< pageShift)
  leaf : pgtbl.mem lower (pgtblCalcIndexVal vaddr 0) = pte
  counted :
    ∀ table ∈ pathTables setup upper lower, pgtbl.usecnt table = 2

/-- What the removal of the only page of a page table does. -/
structure PathCleared
    (setup : PgtblSetup)
    (upper lower : Nat)
    (before after : PgtblState) : Prop where
  free : after.free = before.free ++ [lower, upper]
  nrPages : after.nrPages = before.nrPages - 2
  base : after.usecnt setup.base = 1
  returned : after.usecnt lower = 0 ∧ after.usecnt upper = 0
  others :
    ∀ pfn ∉ pathTables setup upper lower,
      after.usecnt pfn = before.usecnt pfn ∧ after.mem pfn = before.mem pfn

namespace PagePath

variable (path : PagePath setup pgtbl vaddr upper lower pte)

include path in
theorem tables_ne :
    upper ≠ setup.base ∧ lower ≠ setup.base ∧ lower ≠ upper := by
  have apart := path.apart
  simp only [pathTables, List.nodup_cons, List.mem_cons, List.not_mem_nil,
    or_false, not_or] at apart
  exact ⟨fun same => apart.1.1 same.symm, fun same => apart.1.2 same.symm,
    fun same => apart.2.1 same.symm⟩

include path in
/-- A path is kept by work on other pages. -/
theorem congr
    {later : PgtblState}
    (same :
      ∀ table ∈ pathTables setup upper lower,
        later.mem table = pgtbl.mem table ∧
          later.usecnt table = pgtbl.usecnt table) :
    PagePath setup later vaddr upper lower pte := by
  have counted := fun table member =>
    (same table member).2.trans (path.counted table member)
  simp only [pathTables, List.mem_cons, List.not_mem_nil, or_false,
    forall_eq_or_imp, forall_eq] at same
  obtain ⟨⟨base, _⟩, ⟨first, _⟩, second, _⟩ := same
  exact
    { known := path.known
      bound := path.bound
      apart := path.apart
      first := base ▸ path.first
      second := first ▸ path.second
      leaf := second ▸ path.leaf
      counted := counted }

include path in
/-- The tables of a path, lowest first. -/
theorem collectTables
    (valid : pteIsValid pte = true) :
    Pgtbl.collectTables pgtbl.mem vaddr pgtblLvlNr setup.base [] =
      some [(0, lower), (1, upper), (2, setup.base)] := by
  obtain ⟨upperValid, upperTable, upperPfn⟩ := tablePte_fields path.bound.1
  obtain ⟨lowerValid, lowerTable, lowerPfn⟩ := tablePte_fields path.bound.2
  simp [pgtblLvlNr, Pgtbl.collectTables, path.first, path.second, path.leaf,
    upperValid, upperTable, upperPfn, lowerValid, lowerTable, lowerPfn, valid]

include path in
/-- Clearing the entries of a path returns the two tables below the base. -/
theorem removeTableReference
    (valid : pteIsValid pte = true) :
    ∃ after,
      Pgtbl.removeTableReference setup pgtbl vaddr = some after ∧
        PathCleared setup upper lower pgtbl after := by
  obtain ⟨upperBase, lowerBase, lowerUpper⟩ := path.tables_ne
  have known := path.known
  have counted := path.counted
  simp only [pathTables, List.mem_cons, List.not_mem_nil, or_false,
    forall_eq_or_imp, forall_eq] at known counted
  obtain ⟨baseKnown, upperKnown, lowerKnown⟩ := known
  obtain ⟨baseCount, upperCount, lowerCount⟩ := counted
  have upperPfn := (tablePte_fields path.bound.1).2.2
  have lowerPfn := (tablePte_fields path.bound.2).2.2
  refine ⟨?after, ?run, ?cleared⟩
  case run =>
    rw [Pgtbl.removeTableReference, path.collectTables valid]
    simp [clearTables, freeLowTable, decPageUseCount, PgtblState.writePte,
      baseKnown, upperKnown, lowerKnown, baseCount, upperCount, lowerCount,
      path.first, path.second, upperPfn, lowerPfn, upperBase,
      lowerUpper, upperBase.symm, lowerBase.symm, lowerUpper.symm]
    rfl
  case cleared =>
    refine
      { free := rfl
        nrPages := by
          show pgtbl.nrPages - 1 - 1 = pgtbl.nrPages - 2
          omega
        base := ?_
        returned := ⟨?_, ?_⟩
        others := fun pfn apart => ?_ }
    · simp [upperBase.symm]
    · simp [lowerUpper, lowerBase]
    · simp
    · simp only [pathTables, List.mem_cons, List.not_mem_nil, or_false,
        not_or] at apart
      simp [apart]

include path in
/-- The walk to the page finds its entry. -/
theorem halPgtblExtract
    (valid : pteIsValid pte = true)
    (isLeaf : pteIsLeaf pte = true) :
    Pgtbl.halPgtblExtract setup pgtbl.mem vaddr = .ok (mappingOf pte 0) := by
  obtain ⟨upperValid, upperTable, upperPfn⟩ := tablePte_fields path.bound.1
  obtain ⟨lowerValid, lowerTable, lowerPfn⟩ := tablePte_fields path.bound.2
  simp [Pgtbl.halPgtblExtract, pgtblLvlNr, extractLoop, walkPgtbl, path.first,
    path.second, path.leaf, upperValid, upperTable, upperPfn, lowerValid,
    lowerTable, lowerPfn, valid, isLeaf]

end PagePath

/-- The only page of a page table, on a cluster of one page. -/
structure OnePage
    (setup : PgtblSetup)
    (state : VmState)
    (vaddr upper lower frame prot flags : Nat) : Prop where
  path :
    PagePath setup state.pgtbl vaddr upper lower
      (leafPte prot flags (frame <<< pageShift))
  asked : prot &&& vmProtMask ≠ 0
  bound : frame < 2 ^ 44
  known : setup.isPfnValid frame = true
  apart : frame ∉ pathTables setup upper lower
  single : state.order frame = 0
  counted : state.pgtbl.usecnt frame = 1

/-- The page is unmapped: its frame and the tables on the way are returned. -/
structure OnePageCleared
    (setup : PgtblSetup)
    (upper lower frame : Nat)
    (before after : VmState) : Prop where
  free : after.pgtbl.free = before.pgtbl.free ++ [frame, lower, upper]
  order : after.order = before.order
  nrPages : after.pgtbl.nrPages = before.pgtbl.nrPages - 2
  base : after.pgtbl.usecnt setup.base = 1
  returned : ∀ pfn ∈ [frame, lower, upper], after.pgtbl.usecnt pfn = 0
  others :
    ∀ pfn ∉ frame :: pathTables setup upper lower,
      after.pgtbl.usecnt pfn = before.pgtbl.usecnt pfn ∧
        after.pgtbl.mem pfn = before.pgtbl.mem pfn

namespace OnePage

variable {state : VmState}
variable {prot flags : Nat}
variable (page : OnePage setup state vaddr upper lower frame prot flags)

include page in
theorem valid_leaf :
    pteIsValid (leafPte prot flags (frame <<< pageShift)) = true ∧
      pteIsLeaf (leafPte prot flags (frame <<< pageShift)) = true := by
  obtain ⟨valid, leaf, _⟩ :=
    leafPte_attributes prot flags (frame <<< pageShift)
  exact ⟨valid, leaf.mpr page.asked⟩

include page in
theorem extracted :
    Pgtbl.halPgtblExtract setup state.pgtbl.mem vaddr =
      .ok (mappingOf (leafPte prot flags (frame <<< pageShift)) 0) :=
  page.path.halPgtblExtract page.valid_leaf.1 page.valid_leaf.2

include page in
/-- The page frame in the entry is the one that was mapped. -/
theorem mapping_pfn :
    (mappingOf (leafPte prot flags (frame <<< pageShift)) 0).paddr >>>
      pageShift = frame := by
  have bound := page.bound
  have address : frame <<< pageShift < 2 ^ 56 := by
    rw [Nat.shiftLeft_eq, pageShift]
    omega
  have ppn := ppnMask_and_eq address
  rw [Nat.shiftLeft_shiftRight] at ppn
  have field := (leafPte_fields prot flags (frame <<< pageShift)).2
  rw [Nat.shiftLeft_shiftRight, ppn] at field
  simp [mappingOf, pteToPaddr, field]

include page in
/-- Unmapping the page returns its frame, then the tables on the way. -/
theorem unmapPage :
    ∃ after,
      Vm.unmapPage setup state false vaddr = some after ∧
        OnePageCleared setup upper lower frame state after := by
  have noUser : state.pgtbl.usecnt frame - 1 = 0 := by
    rw [page.counted]
    rfl
  let without : PgtblState :=
    { state.pgtbl with
      usecnt := Function.update state.pgtbl.usecnt frame 0
      free := state.pgtbl.free ++ cluster frame 0
      tables := state.pgtbl.tables.erase frame }
  have dropped :
      dropMapped setup state false
          (.ok (mappingOf (leafPte prot flags (frame <<< pageShift)) 0)) =
        some { state with pgtbl := without } := by
    simp [dropMapped, page.mapping_pfn, page.known, pfdbDecPageUseCount,
      noUser, page.single, without]
  have path :
      PagePath setup without vaddr upper lower
        (leafPte prot flags (frame <<< pageShift)) := by
    refine page.path.congr fun table member => ⟨rfl, ?_⟩
    have different : table ≠ frame := fun same => page.apart (same ▸ member)
    exact Function.update_of_ne different ..
  obtain ⟨after, removed, cleared⟩ :=
    path.removeTableReference page.valid_leaf.1
  refine ⟨{ state with pgtbl := after }, ?_, ?_⟩
  · simp only [Vm.unmapPage, page.extracted, dropped, removed,
      Option.map_some]
  · have frameGone : after.usecnt frame = 0 :=
      (cleared.others frame page.apart).1.trans (Function.update_self ..)
    refine
      { free := ?_
        order := rfl
        nrPages := cleared.nrPages
        base := cleared.base
        returned := ?_
        others := fun pfn apart => ?_ }
    · rw [cleared.free, List.append_assoc]
      rfl
    · simp only [List.mem_cons, List.not_mem_nil, or_false, forall_eq_or_imp,
        forall_eq]
      exact ⟨frameGone, cleared.returned⟩
    · rw [List.mem_cons, not_or] at apart
      obtain ⟨count, mem⟩ := cleared.others pfn apart.2
      exact ⟨count.trans (Function.update_of_ne apart.1 ..), mem⟩

include page in
/-- `release_process_segment` of the page alone. -/
theorem releaseProcessSegment
    (locals : UnmapLocals)
    (rmPgsize rounds : Nat)
    (whole : pageSize ∣ vaddr)
    (inSpace : vaddr + pageSize < addressSpace) :
    ∃ after,
      Vm.releaseProcessSegment setup locals rmPgsize (.ok ()) (rounds + 2)
          state vaddr (vaddr + pageSize) 0 = some after ∧
        OnePageCleared setup upper lower frame state after := by
  obtain ⟨after, unmapped, cleared⟩ := page.unmapPage
  have size :
      (mappingOf (leafPte prot flags (frame <<< pageShift)) 0).pgsize =
        pageSize := by
    simp only [mappingOf]
    decide
  have inside :
      PageInside setup state vaddr
        (mappingOf (leafPte prot flags (frame <<< pageShift)) 0) :=
    { extracted := page.extracted
      startAligned := whole
      stopAligned := size ▸ Nat.dvd_add whole dvd_rfl
      positive := size ▸ by decide
      inSpace := size ▸ inSpace
      attributes := fun asked => flags_or_mapping asked _ _ }
  have removed :
      vmUnmap setup locals (.ok ()) state vaddr 0
          (mappingOf (leafPte prot flags (frame <<< pageShift)) 0).pgsize =
        some (.ok (), after) :=
    inside.vmUnmap unmapped
  have positive : 0 < pageSize := by decide
  refine ⟨after, ?_, cleared⟩
  rw [Vm.releaseProcessSegment, truncateAlign_of_dvd whole,
    pageRoundup_of_dvd (Nat.dvd_add whole dvd_rfl) inSpace, releaseLoop,
    if_pos (by omega)]
  simp only [page.extracted, removed]
  rw [size, Nat.mod_eq_of_lt inSpace, releaseLoop, if_neg (lt_irrefl _)]

end OnePage

/-! ## Mapping the page -/

/-- The base has one user, and nothing in the slot of an address. -/
structure EmptySlot
    (setup : PgtblSetup)
    (pgtbl : PgtblState)
    (vaddr : Nat) : Prop where
  known : setup.isPfnValid setup.base = true
  notFree : setup.base ∉ pgtbl.free
  counted : pgtbl.usecnt setup.base = 1
  unused :
    pteIsValid (pgtbl.mem setup.base (pgtblCalcIndexVal vaddr 2)) = false

/-- What the mapping of a first page does to the page table. -/
structure PathGrown
    (setup : PgtblSetup)
    (upper lower : Nat)
    (rest : List Nat)
    (before after : PgtblState) : Prop where
  taken : before.free = upper :: lower :: rest
  free : after.free = rest
  nrPages : after.nrPages = before.nrPages + 2
  others :
    ∀ pfn ∉ pathTables setup upper lower,
      after.usecnt pfn = before.usecnt pfn ∧ after.mem pfn = before.mem pfn

/-- The loop of a first page stops the kernel or maps the page. -/
theorem mapVaddrToPaddr_emptySlot
    {paddr prot flags : Nat}
    (empty : EmptySlot setup pgtbl vaddr)
    (nodup : pgtbl.free.Nodup)
    (bound : ∀ pfn ∈ pgtbl.free, pfn < 2 ^ 44)
    (known : ∀ pfn ∈ pgtbl.free, setup.isPfnValid pfn = true)
    (vaddrAligned : aligned vaddr pageSize = true)
    (paddrAligned : aligned paddr pageSize = true) :
    mapVaddrToPaddr setup pgtbl vaddr paddr prot flags pageSize = none ∨
      ∃ upper lower rest after,
        mapVaddrToPaddr setup pgtbl vaddr paddr prot flags pageSize =
            some (.ok (), after) ∧
          PagePath setup after vaddr upper lower (leafPte prot flags paddr) ∧
          PathGrown setup upper lower rest pgtbl after := by
  have sizes :
      pageSize ≠ halPageSize1G ∧ pageSize ≠ halPageSize2M ∧
        pgtblCalcPagesize 2 ≠ pageSize ∧ pgtblCalcPagesize 1 ≠ pageSize ∧
        pgtblCalcPagesize 0 = pageSize := by
    decide
  obtain ⟨notHuge, notLarge, level2, level1, level0⟩ := sizes
  have baseKnown := empty.known
  have unused := empty.unused
  have counted := empty.counted
  have notFree := empty.notFree
  cases free : pgtbl.free with
  | nil =>
      left
      simp [mapVaddrToPaddr, notHuge, notLarge, vaddrAligned, paddrAligned,
        mapLoop, pgtblLvlNr, growPgtbl, PgtblState.visit, baseKnown, unused,
        level2, pgtblAllocPgtblPage, free, removeTableReference, collectTables]
  | cons upper others =>
      rw [free] at notFree nodup
      have upperKnown := known upper (free ▸ List.mem_cons_self)
      have upperBound := bound upper (free ▸ List.mem_cons_self)
      obtain ⟨upperValid, upperTable, upperPfn⟩ := tablePte_fields upperBound
      have upperBase : upper ≠ setup.base := fun same =>
        notFree (same ▸ List.mem_cons_self)
      cases others with
      | nil =>
          left
          simp [mapVaddrToPaddr, notHuge, notLarge, vaddrAligned,
            paddrAligned, mapLoop, pgtblLvlNr, growPgtbl, PgtblState.visit,
            PgtblState.writePte, incPageUseCount, baseKnown, upperKnown,
            unused, level2, level1, pgtblAllocPgtblPage, free, counted,
            removeTableReference, collectTables, upperBase, upperBase.symm,
            pteIsValid_zero, upperValid, upperTable, upperPfn]
      | cons lower rest =>
          right
          have lowerMember : lower ∈ pgtbl.free := by
            simp [free]
          have lowerKnown := known lower lowerMember
          have lowerBase : lower ≠ setup.base := by
            rintro rfl
            simp at notFree
          have lowerUpper : lower ≠ upper := by
            rintro rfl
            simp at nodup
          refine ⟨upper, lower, rest, ?after, ?mapped, ?path, ?grown⟩
          case mapped =>
            simp [mapVaddrToPaddr, notHuge, notLarge, vaddrAligned,
              paddrAligned, mapLoop, pgtblLvlNr, growPgtbl, PgtblState.visit,
              PgtblState.writePte, incPageUseCount, baseKnown, upperKnown,
              lowerKnown, unused, level2, level1, level0, pgtblAllocPgtblPage,
              free, counted, upperBase, upperBase.symm, lowerUpper,
              lowerUpper.symm, pteIsValid_zero]
            rfl
          case path =>
            refine
              { known := ?_
                bound := ⟨upperBound, bound lower lowerMember⟩
                apart := ?_
                first := ?_
                second := ?_
                leaf := ?_
                counted := ?_ }
            · simp [pathTables, baseKnown, upperKnown, lowerKnown]
            · simp [pathTables, upperBase.symm, lowerBase.symm,
                lowerUpper.symm]
            · simp [upperBase.symm, lowerBase.symm]
            · simp [lowerUpper.symm]
            · simp
            · simp [pathTables, upperBase.symm, lowerBase.symm,
                lowerUpper.symm]
          case grown =>
            refine
              { taken := free
                free := rfl
                nrPages := by
                  show pgtbl.nrPages + 1 + 1 = pgtbl.nrPages + 2
                  omega
                others := fun pfn apart => ?_ }
            simp only [pathTables, List.mem_cons, List.not_mem_nil, or_false,
              not_or] at apart
            simp [apart]

/-- What the mapping of a first page takes from the pool. -/
structure OnePageMapped
    (setup : PgtblSetup)
    (upper lower frame : Nat)
    (before after : VmState) : Prop where
  free :
    ([frame, upper, lower] ++ after.pgtbl.free).Perm before.pgtbl.free
  order : ∀ pfn ≠ frame, after.order pfn = before.order pfn
  nrPages : after.pgtbl.nrPages = before.pgtbl.nrPages + 2
  others :
    ∀ pfn ∉ frame :: pathTables setup upper lower,
      after.pgtbl.usecnt pfn = before.pgtbl.usecnt pfn ∧
        after.pgtbl.mem pfn = before.pgtbl.mem pfn

section Userpage

variable {state : VmState}
variable {locals : UnmapLocals}
variable {prot rounds : Nat}

/-- A request of one small page is one round of the loop. -/
theorem halPgtblEnter_onePage
    (flags : Nat)
    (whole : pageSize ∣ vaddr)
    (inSpace : vaddr + pageSize < addressSpace)
    (bound : frame < 2 ^ 44)
    (asked : prot &&& vmProtMask ≠ 0) :
    halPgtblEnter setup pgtbl
        { vaddr, paddr := frame <<< pageShift, prot, flags, len := pageSize } =
      mapVaddrToPaddr setup pgtbl vaddr (frame <<< pageShift) prot flags
        pageSize := by
  let page : MappedPage := { vaddr, frame, prot, flags, target := 2 }
  have small : targetSize 2 = pageSize := by decide
  have wellFormed : page.Sound :=
    { targetBound := le_rfl
      vaddr_dvd := small ▸ whole
      frame_dvd := one_dvd _
      inSpace := small ▸ inSpace
      frameBound := bound
      asked := asked }
  obtain ⟨isAligned, depth, pages⟩ := wellFormed.request_facts
  have size : page.request.pgsize = pageSize := by
    rw [← page.request.targetSize_leafDepth, depth]
    exact small
  have request :
      page.request =
        { vaddr, paddr := frame <<< pageShift, prot, flags,
          len := pageSize } := by
    simp only [MappedPage.request, page, small]
  rw [← request, halPgtblEnter, if_pos isAligned, pages, size, request,
    enterLoop]
  dsimp only
  cases mapVaddrToPaddr setup pgtbl vaddr (frame <<< pageShift) prot flags
    pageSize with
  | none =>
      rfl
  | some entered =>
      obtain ⟨result | result, after⟩ := entered <;> rfl

/-- A first page is not mapped, or mapped on a page of the pool. -/
theorem vmMapCommon_onePage
    (pool : PagePool)
    (flags : Nat)
    (empty : EmptySlot setup state.pgtbl vaddr)
    (ready : PoolReady setup.isPfnValid state)
    (whole : pageSize ∣ vaddr)
    (inSpace : vaddr + pageSize < addressSpace)
    (asked : prot &&& vmProtMask ≠ 0) :
    vmMapCommon setup pool state vaddr prot flags pageSize = none ∨
      vmMapCommon setup pool state vaddr prot flags pageSize =
        some (.error .enomem, state) ∨
      ∃ upper lower frame after,
        vmMapCommon setup pool state vaddr prot flags pageSize =
            some (.ok (), after) ∧
          OnePage setup after vaddr upper lower frame prot flags ∧
          OnePageMapped setup upper lower frame state after := by
  have order : pgifCalcPageOrder pageSize = some 0 := by decide
  have vaddrAligned : addrNotAligned vaddr pageSize = false := by
    have mask :
        (pageSize + (addressSpace - 1)) % addressSpace = 2 ^ 12 - 1 := by
      decide
    have multiple : vaddr % 2 ^ 12 = 0 := Nat.mod_eq_zero_of_dvd whole
    rw [addrNotAligned, mask, Nat.and_two_pow_sub_one_eq_mod, multiple]
    rfl
  rw [vmMapCommon, if_neg (by simp [vaddrAligned]), order]
  dsimp only
  cases dequeued : pool.dequeue state.pgtbl.free 0 with
  | none =>
      right
      left
      simp [pgifGetFreePageCluster, dequeued]
  | some frame =>
      have single : cluster frame 0 = [frame] := rfl
      have free : frame ∈ state.pgtbl.free :=
        pool.dequeue_free dequeued (single ▸ List.mem_singleton_self frame)
      have bound := ready.bound frame free
      let taken : PgtblState :=
        { state.pgtbl with
          mem := fun pfn =>
            if pfn ∈ cluster frame 0 then
              fun _ => 0
            else
              state.pgtbl.mem pfn
          usecnt := Function.update state.pgtbl.usecnt frame 1
          free := state.pgtbl.free.filter (· ∉ cluster frame 0) }
      have cluster :
          pgifGetFreePageCluster pool state 0 =
            some
              (frame,
                { pgtbl := taken
                  order := Function.update state.order frame 0 }) := by
        simp [pgifGetFreePageCluster, dequeued, taken]
      rw [cluster]
      dsimp only
      rw [halPgtblEnter_onePage flags whole inSpace bound asked]
      have isFree :
          ∀ {pfn}, pfn ∈ taken.free ↔ pfn ∈ state.pgtbl.free ∧ pfn ≠ frame := by
        intro pfn
        simp [taken, single]
      have notBase : setup.base ≠ frame := fun same =>
        empty.notFree (same ▸ free)
      have sameMem : ∀ pfn ≠ frame, taken.mem pfn = state.pgtbl.mem pfn := by
        intro pfn different
        simp [taken, single, different]
      have sameCount :
          ∀ pfn ≠ frame, taken.usecnt pfn = state.pgtbl.usecnt pfn :=
        fun pfn different => Function.update_of_ne different ..
      have stillEmpty : EmptySlot setup taken vaddr :=
        { known := empty.known
          notFree := fun member => empty.notFree (isFree.mp member).1
          counted := (sameCount _ notBase).trans empty.counted
          unused := sameMem _ notBase ▸ empty.unused }
      have paddrAligned : aligned (frame <<< pageShift) pageSize = true := by
        rw [aligned, beq_iff_eq, Nat.shiftLeft_eq]
        exact Nat.mul_mod_left frame pageSize
      have isAligned : aligned vaddr pageSize = true := by
        rw [aligned, beq_iff_eq]
        exact Nat.mod_eq_zero_of_dvd whole
      rcases mapVaddrToPaddr_emptySlot stillEmpty
          (ready.nodup.filter _)
          (fun pfn member => ready.bound pfn (isFree.mp member).1)
          (fun pfn member => ready.known pfn (isFree.mp member).1)
          isAligned paddrAligned with
        stopped | ⟨upper, lower, rest, after, mapped, path, grown⟩
      · left
        rw [stopped]
      · right
        right
        have upperNe : upper ≠ frame :=
          (isFree.mp (grown.taken ▸ List.mem_cons_self)).2
        have lowerNe : lower ≠ frame := by
          have member : lower ∈ taken.free := by
            simp [grown.taken]
          exact (isFree.mp member).2
        have apart : frame ∉ pathTables setup upper lower := by
          simp only [pathTables, List.mem_cons, List.not_mem_nil, or_false,
            not_or]
          exact ⟨notBase.symm, upperNe.symm, lowerNe.symm⟩
        have counted : after.usecnt frame = 1 :=
          (grown.others frame apart).1.trans (Function.update_self ..)
        refine
          ⟨upper, lower, frame,
            { pgtbl := after
              order := Function.update state.order frame 0 }, ?_, ?_, ?_⟩
        · rw [mapped]
          simp [counted]
        · exact
            { path := path
              asked := asked
              bound := bound
              known := ready.known frame free
              apart := apart
              single := Function.update_self ..
              counted := counted }
        · refine
            { free := ?_
              order := fun pfn different => Function.update_of_ne different ..
              nrPages := grown.nrPages
              others := fun pfn outside => ?_ }
          · have kept : upper :: lower :: after.free = taken.free := by
              rw [grown.taken, grown.free]
            have cut : taken.free = state.pgtbl.free.erase frame := by
              rw [ready.nodup.erase_eq_filter]
              refine List.filter_congr fun pfn _ => ?_
              rw [Bool.eq_iff_iff, decide_eq_true_iff, bne_iff_ne, single,
                List.mem_singleton]
            show (frame :: (upper :: lower :: after.free)).Perm _
            rw [kept, cut]
            exact (List.perm_cons_erase free).symm
          · rw [List.mem_cons, not_or] at outside
            obtain ⟨count, mem⟩ := grown.others pfn outside.2
            exact ⟨count.trans (sameCount pfn outside.1),
              mem.trans (sameMem pfn outside.1)⟩

/-- A first user page is mapped, or the call fails and changes nothing. -/
theorem vmMapUserpage_onePage
    (pool : PagePool)
    {locked : Except Errno Unit}
    (empty : EmptySlot setup state.pgtbl vaddr)
    (ready : PoolReady setup.isPfnValid state)
    (whole : pageSize ∣ vaddr)
    (inSpace : vaddr + pageSize < addressSpace)
    (asked : prot &&& vmProtMask ≠ 0) :
    vmMapUserpage setup pool locals locked (rounds + 2) state vaddr prot 0
        pageSize pageSize = none ∨
      (∃ code,
        vmMapUserpage setup pool locals locked (rounds + 2) state vaddr prot 0
            pageSize pageSize = some (.error code, state)) ∨
      ∃ upper lower frame after,
        vmMapUserpage setup pool locals locked (rounds + 2) state vaddr prot 0
            pageSize pageSize = some (.ok (), after) ∧
          OnePage setup after vaddr upper lower frame prot 0 ∧
          OnePageMapped setup upper lower frame state after := by
  have positive : 0 < pageSize := by decide
  have noFlags : ¬ 0 &&& notUserFlags ≠ 0 := by decide
  have userFlags : 0 ^^^ (0 &&& notUserFlags) = 0 := by decide
  have next := Nat.mod_eq_of_lt inSpace
  have stop := pageRoundup_of_dvd (Nat.dvd_add whole dvd_rfl) inSpace
  have start := truncateAlign_of_dvd whole
  rw [vmMapUserpage, if_neg noFlags]
  simp only [next, stop, start, userFlags]
  rw [if_neg (by omega)]
  cases locked with
  | error code =>
      exact .inr (.inl ⟨code, rfl⟩)
  | ok =>
      dsimp only
      rw [vmMapLoop, if_pos (by omega)]
      rcases vmMapCommon_onePage pool 0 empty ready whole inSpace asked with
        stopped | failed | ⟨upper, lower, frame, after, mapped, page, facts⟩
      · left
        rw [stopped]
      · right
        left
        have nothing :
            (vaddr + (addressSpace - vaddr)) % addressSpace = 0 := by
          rw [Nat.add_sub_cancel' (by omega), Nat.mod_self]
        have sameStop : pageRoundup (vaddr % addressSpace) = vaddr := by
          rw [Nat.mod_eq_of_lt (by omega)]
          exact pageRoundup_of_dvd whole (by omega)
        refine ⟨.enomem, ?_⟩
        rw [failed]
        simp only [nothing, vmUnmapCommon, Nat.add_zero, sameStop, start]
        rw [vmUnmapLoop, if_neg (lt_irrefl _)]
        rfl
      · right
        right
        refine ⟨upper, lower, frame, after, ?_, page, facts⟩
        rw [mapped]
        simp only [next]
        rw [vmMapLoop, if_neg (lt_irrefl _)]

end Userpage

/-! ## The page and its tables as held pages -/

section HeldPage

variable {state : VmState}
variable {prot flags : Nat}

/-- A page that is mapped is held, with the tables on the way to it. -/
theorem OnePageMapped.takes
    (mapped : OnePageMapped setup upper lower frame middle after)
    (holds : Held before middle [setup.base]) :
    Held before after [frame, upper, lower, setup.base] := by
  refine holds.take [frame, upper, lower] mapped.free
    (fun pfn apart => mapped.order pfn ?_)
    (fun pfn apart => mapped.others pfn ?_)
  · rintro rfl
    exact apart List.mem_cons_self
  · simp only [List.mem_append, List.mem_cons, List.not_mem_nil, or_false,
      pathTables] at apart ⊢
    tauto

/-- A page stays mapped in calls that give back all that they take. -/
theorem OnePage.keep
    (page : OnePage setup middle vaddr upper lower frame prot flags)
    (holds : Held before middle [frame, upper, lower, setup.base])
    (ready : PoolReady isPfnValid before)
    (nothing : Held middle after []) :
    OnePage setup after vaddr upper lower frame prot flags := by
  have used :
      ∀ pfn ∈ frame :: pathTables setup upper lower,
        pfn ∉ middle.pgtbl.free := by
    intro pfn member free
    apply (holds.unused ready free).1
    simp only [pathTables, List.mem_cons, List.not_mem_nil, or_false]
      at member ⊢
    tauto
  have frameUsed := used frame List.mem_cons_self
  exact
    { path := page.path.congr fun table member =>
        ⟨nothing.mem table (used table (List.mem_cons_of_mem frame member)),
          nothing.usecnt table List.not_mem_nil⟩
      asked := page.asked
      bound := page.bound
      known := page.known
      apart := page.apart
      single := (nothing.order frame frameUsed).trans page.single
      counted := (nothing.usecnt frame List.not_mem_nil).trans page.counted }

/-- Unmapping the page leaves the base. -/
theorem OnePageCleared.gives
    (cleared : OnePageCleared setup upper lower frame middle after)
    (holds : Held before middle [frame, upper, lower, setup.base])
    (ready : PoolReady isPfnValid before) :
    Held before after [setup.base] := by
  have parts :
      [frame, upper, lower, setup.base].Perm
        ([frame, lower, upper] ++ [setup.base]) :=
    (List.Perm.swap lower upper [setup.base]).cons frame
  refine holds.give [frame, lower, upper] ready parts ?_ cleared.order
    cleared.returned fun pfn apart => cleared.others pfn ?_
  · rw [cleared.free]
  · simp only [pathTables, List.mem_cons, List.not_mem_nil, or_false]
      at apart ⊢
    tauto

end HeldPage

end RiscvWorkshop.Vm
