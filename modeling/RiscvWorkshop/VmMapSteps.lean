import Mathlib
import RiscvWorkshop.PageTableFailure
import RiscvWorkshop.PageTableFrames
import RiscvWorkshop.VmMap

namespace RiscvWorkshop.Vm

open Pgtbl

/-!
# Single pages

Taking a cluster from the pool and returning one is work on pages that are no
tables.  Mapping a page and unmapping one are walks of the page table between
such works.  The module says once what each of these steps does.
-/

variable {setup : PgtblSetup}
variable {pool : PagePool}
variable {state after : VmState}
variable {pfn order frame vaddr target : Nat}

/-! ## Clusters -/

theorem mem_cluster :
    frame ∈ cluster pfn order ↔ pfn ≤ frame ∧ frame < pfn + 2 ^ order := by
  rw [cluster, List.mem_range'_1]

theorem length_cluster (pfn order : Nat) :
    (cluster pfn order).length = 2 ^ order :=
  List.length_range' ..

theorem nodup_cluster (pfn order : Nat) : (cluster pfn order).Nodup :=
  List.nodup_range' ..

theorem head_mem_cluster (pfn order : Nat) : pfn ∈ cluster pfn order := by
  rw [mem_cluster]
  exact ⟨le_rfl, Nat.lt_add_of_pos_right (Nat.two_pow_pos order)⟩

/-- What is taken from the free pages and what stays are all of them. -/
theorem length_filter_cluster
    {free : List Nat}
    (nodup : free.Nodup)
    (isFree : cluster pfn order ⊆ free) :
    (free.filter (· ∉ cluster pfn order)).length + 2 ^ order =
      free.length := by
  have taken :
      (free.filter (· ∈ cluster pfn order)).Perm (cluster pfn order) := by
    rw [List.perm_ext_iff_of_nodup (nodup.filter _) (nodup_cluster pfn order)]
    intro other
    rw [List.mem_filter, decide_eq_true_iff]
    exact ⟨fun both => both.2, fun inside => ⟨isFree inside, inside⟩⟩
  have parts :=
    free.length_eq_length_filter_add (decide <| · ∈ cluster pfn order)
  rw [taken.length_eq, length_cluster] at parts
  simp only [← decide_not] at parts
  omega

/-- A cluster in the hands of one user. -/
structure ClusterHeld
    (state : VmState)
    (pfn order : Nat) : Prop where
  usecnt : state.pgtbl.usecnt pfn = 1
  sized : state.order pfn = order
  apart :
    ∀ frame ∈ cluster pfn order,
      frame ∉ state.pgtbl.tables ∧ frame ∉ state.pgtbl.free ∧ frame < 2 ^ 44
  tail :
    ∀ frame ∈ cluster pfn order, frame ≠ pfn → state.pgtbl.usecnt frame = 0

/-- Taking a cluster is work on other pages, and the cluster is held. -/
theorem pgifGetFreePageCluster_spec
    (sound : TreeSound setup state.pgtbl)
    (taken : pgifGetFreePageCluster pool state order = some (pfn, after)) :
    OtherWork state.pgtbl after.pgtbl ∧
      ClusterHeld after pfn order ∧
      cluster pfn order ⊆ state.pgtbl.free ∧
      after.pgtbl.free = state.pgtbl.free.filter (· ∉ cluster pfn order) ∧
      after.pgtbl.free.length + 2 ^ order = state.pgtbl.free.length ∧
      (∀ other ≠ pfn,
        after.pgtbl.usecnt other = state.pgtbl.usecnt other) ∧
      (∀ other ≠ pfn, after.order other = state.order other) ∧
      ∀ other ∉ cluster pfn order,
        after.pgtbl.mem other = state.pgtbl.mem other := by
  obtain ⟨head, dequeued, same⟩ := Option.map_eq_some_iff.mp taken
  cases same
  have isFree := pool.dequeue_free dequeued
  have fresh := fun frame inside => sound.freeFresh frame (isFree inside)
  have headFree := fresh pfn (head_mem_cluster pfn order)
  refine
    ⟨{ tables := rfl
       nrPages := rfl
       visited := rfl
       mem := fun table known => if_neg fun inside =>
         (fresh table inside).1 known
       usecnt := fun table known => Function.update_of_ne ?_ ..
       freeNodup := sound.freeNodup.filter _
       freeFresh := ?_ },
      { usecnt := Function.update_self ..
        sized := Function.update_self ..
        apart := ?_
        tail := ?_ },
      isFree, rfl, length_filter_cluster sound.freeNodup isFree,
      fun other different => Function.update_of_ne different ..,
      fun other different => Function.update_of_ne different ..,
      fun other outside => if_neg outside⟩
  · rintro rfl
    exact headFree.1 known
  · intro frame known
    obtain ⟨older, outside⟩ := List.mem_filter.mp known
    obtain ⟨notTable, unused, bound⟩ := sound.freeFresh frame older
    have different : frame ≠ pfn := by
      rintro rfl
      exact of_decide_eq_true outside (head_mem_cluster frame order)
    exact ⟨notTable, (Function.update_of_ne different ..).trans unused, bound⟩
  · intro frame inside
    obtain ⟨notTable, _, bound⟩ := fresh frame inside
    refine ⟨notTable, fun known => ?_, bound⟩
    exact of_decide_eq_true (List.mem_filter.mp known).2 inside
  · intro frame inside different
    exact (Function.update_of_ne different ..).trans (fresh frame inside).2.1

/-- The pages of a cluster that was taken are cleared. -/
theorem pgifGetFreePageCluster_cleared
    (taken : pgifGetFreePageCluster pool state order = some (pfn, after))
    (inside : frame ∈ cluster pfn order) :
    after.pgtbl.mem frame = fun _ => 0 := by
  obtain ⟨head, _, same⟩ := Option.map_eq_some_iff.mp taken
  cases same
  exact if_pos inside

/-- The free pages after the cluster of a user was returned. -/
def VmState.returnCluster
    (state : VmState)
    (pfn order : Nat) : VmState :=
  { state with
    pgtbl :=
      { state.pgtbl with
        usecnt := Function.update state.pgtbl.usecnt pfn 0
        free := state.pgtbl.free ++ cluster pfn order } }

namespace ClusterHeld

variable (held : ClusterHeld state pfn order)

include held in
theorem head_apart :
    pfn ∉ state.pgtbl.tables ∧ pfn ∉ state.pgtbl.free ∧ pfn < 2 ^ 44 :=
  held.apart pfn (head_mem_cluster pfn order)

include held in
/-- The only user of a cluster returns it as a whole. -/
theorem pfdbDecPageUseCount :
    pfdbDecPageUseCount state pfn =
      some (true, state.returnCluster pfn order) := by
  have none : state.pgtbl.usecnt pfn - 1 = 0 := by
    rw [held.usecnt]
    rfl
  have notTable := held.head_apart.1
  simp only [Vm.pfdbDecPageUseCount, none, lt_irrefl, if_false, if_true,
    held.sized, List.erase_of_not_mem notTable]
  rfl

include held in
/-- Returning a cluster is work on other pages. -/
theorem otherWork
    (sound : TreeSound setup state.pgtbl) :
    OtherWork state.pgtbl (state.returnCluster pfn order).pgtbl := by
  refine
    { tables := rfl
      nrPages := rfl
      visited := rfl
      mem := fun _ _ => rfl
      usecnt := fun table known => Function.update_of_ne ?_ ..
      freeNodup := ?_
      freeFresh := ?_ }
  · rintro rfl
    exact held.head_apart.1 known
  · refine List.nodup_append'.mpr
      ⟨sound.freeNodup, nodup_cluster pfn order, ?_⟩
    intro frame free inside
    exact (held.apart frame inside).2.1 free
  · intro frame known
    by_cases isHead : frame = pfn
    · subst isHead
      exact ⟨held.head_apart.1, Function.update_self .., held.head_apart.2.2⟩
    · have count :
          (state.returnCluster pfn order).pgtbl.usecnt frame =
            state.pgtbl.usecnt frame :=
        Function.update_of_ne isHead ..
      rw [count]
      rcases List.mem_append.mp known with older | inside
      · exact sound.freeFresh frame older
      · obtain ⟨notTable, _, bound⟩ := held.apart frame inside
        exact ⟨notTable, held.tail frame inside isHead, bound⟩

end ClusterHeld

/-- The clusters of the pool are aligned to their sizes. -/
def PagePool.Aligned (pool : PagePool) : Prop :=
  ∀ {free order pfn}, pool.dequeue free order = some pfn → 2 ^ order ∣ pfn

/-- A pool that hands out the first free cluster that is aligned. -/
def firstFit : PagePool :=
  { dequeue := fun free order =>
      free.find? fun pfn =>
        2 ^ order ∣ pfn ∧ ∀ frame ∈ cluster pfn order, frame ∈ free
    dequeue_free := by
      intro free order pfn found
      have fits := List.find?_some found
      exact (of_decide_eq_true fits).2 }

theorem firstFit_aligned : firstFit.Aligned := by
  intro free order pfn found
  have fits := List.find?_some found
  exact (of_decide_eq_true fits).1

/-- The two sizes of pages that the pool has clusters for. -/
theorem pgifCalcPageOrder_targetSize
    (bound : target ≤ 2)
    (notLargest : target ≠ 0) :
    pgifCalcPageOrder (targetSize target) = some (9 * (2 - target)) := by
  interval_cases target
  · exact absurd rfl notLargest
  · decide
  · decide

/-! ## One page -/

/-- A page of some size, the frames it maps, and how. -/
structure MappedPage where
  vaddr : Nat
  frame : Nat
  prot : Nat
  flags : Nat
  target : Nat
deriving Repr, DecidableEq

namespace MappedPage

/-- The order of the cluster that a page maps. -/
def pageOrder (page : MappedPage) : Nat :=
  9 * (2 - page.target)

/-- The entry that maps a page. -/
def pte (page : MappedPage) : Nat :=
  leafPte page.prot page.flags (page.frame <<< pageShift)

/-- The request that maps a page. -/
def request (page : MappedPage) : MapRequest :=
  { vaddr := page.vaddr
    paddr := page.frame <<< pageShift
    prot := page.prot
    flags := page.flags
    len := targetSize page.target }

/-- The addresses of a page, as far as the page table tells them apart. -/
def Selects (page : MappedPage) (vaddr : Nat) : Prop :=
  SameEntry page.target vaddr page.vaddr

/-- A page of one of the three sizes, aligned to it, that asks for an access. -/
structure Sound (page : MappedPage) : Prop where
  targetBound : page.target ≤ 2
  vaddr_dvd : targetSize page.target ∣ page.vaddr
  frame_dvd : 2 ^ page.pageOrder ∣ page.frame
  inSpace : page.vaddr + targetSize page.target < addressSpace
  frameBound : page.frame < 2 ^ 44
  asked : page.prot &&& vmProtMask ≠ 0

theorem selects_self (page : MappedPage) : page.Selects page.vaddr :=
  fun _ _ => rfl

theorem targetSize_eq
    (page : MappedPage)
    (bound : page.target ≤ 2) :
    targetSize page.target = pageSize * 2 ^ page.pageOrder := by
  unfold pageOrder
  generalize page.target = target at bound
  interval_cases target <;> decide

namespace Sound

variable {page : MappedPage}
variable (wellFormed : page.Sound)

include wellFormed in
theorem leaf :
    pteIsValid page.pte = true ∧ pteIsLeaf page.pte = true := by
  obtain ⟨valid, leaf, _⟩ :=
    leafPte_attributes page.prot page.flags (page.frame <<< pageShift)
  exact ⟨valid, leaf.mpr wellFormed.asked⟩

include wellFormed in
theorem mapping_pfn (lvl : Nat) :
    (mappingOf page.pte lvl).paddr >>> pageShift = page.frame := by
  have frameBound := wellFormed.frameBound
  have shift : pageShift = 12 := rfl
  have whole : pageSize ∣ page.frame <<< pageShift := by
    rw [Nat.shiftLeft_eq]
    exact Dvd.intro_left _ rfl
  have bound : page.frame <<< pageShift < 2 ^ 56 := by
    rw [Nat.shiftLeft_eq, shift]
    omega
  rw [mappingOf, pte, pteToPaddr_leafPte bound whole, Nat.shiftLeft_shiftRight]

include wellFormed in
/-- The four bounds of the request, and where each is a multiple of a size. -/
theorem request_aligned_iff
    (size : Nat) :
    page.request.aligned size = true ↔
      page.vaddr % size = 0 ∧ (page.frame * pageSize) % size = 0 ∧
        (page.vaddr + targetSize page.target) % size = 0 ∧
        (page.frame * pageSize + targetSize page.target) % size = 0 := by
  have shift : page.frame <<< pageShift = page.frame * pageSize := by
    rw [Nat.shiftLeft_eq]
    rfl
  have sizeBound : targetSize page.target ≤ 2 ^ 30 := by
    have bound := wellFormed.targetBound
    generalize page.target = target at bound
    interval_cases target <;> decide
  have frameBound := wellFormed.frameBound
  have paddrSpace :
      page.frame * pageSize + targetSize page.target < addressSpace := by
    rw [show pageSize = 4096 from rfl, show addressSpace = 2 ^ 64 from rfl]
    omega
  rw [page.request.aligned_iff]
  simp only [MapRequest.vaddrEnd, MapRequest.paddrEnd, request, shift,
    Nat.mod_eq_of_lt wellFormed.inSpace, Nat.mod_eq_of_lt paddrSpace]

include wellFormed in
/-- The request selects the size of the page, and is one round of the loop. -/
theorem request_facts :
    page.request.aligned pageSize = true ∧
      page.request.leafDepth = page.target ∧ page.request.pages = 1 := by
  have iffAligned := wellFormed.request_aligned_iff
  have vaddrWhole := wellFormed.vaddr_dvd
  have frameWhole := wellFormed.frame_dvd
  have bound := wellFormed.targetBound
  have onePage :
      page.request.leafDepth = page.target → page.request.pages = 1 := by
    intro depth
    have size : page.request.pgsize = targetSize page.target := by
      rw [← page.request.targetSize_leafDepth, depth]
    have finish :
        page.request.vaddrEnd = page.vaddr + targetSize page.target :=
      Nat.mod_eq_of_lt wellFormed.inSpace
    have start : page.request.vaddr = page.vaddr := rfl
    rw [MapRequest.pages, finish, start, size, Nat.add_sub_cancel_left,
      Nat.div_self (targetSize_pos _)]
  have large : halPageSize1G = 2 ^ 30 := by decide
  have medium : halPageSize2M = 2 ^ 21 := by decide
  have small : pageSize = 2 ^ 12 := by decide
  have depthAndAligned :
      page.request.aligned pageSize = true ∧
        page.request.leafDepth = page.target := by
    simp only [MapRequest.leafDepth, iffAligned, large, medium, small]
    simp only [MappedPage.pageOrder] at frameWhole
    generalize page.target = target at bound vaddrWhole frameWhole
    interval_cases target
    · rw [show targetSize 0 = 2 ^ 30 by decide] at vaddrWhole ⊢
      refine ⟨by omega, ?_⟩
      rw [if_pos (by omega)]
    · rw [show targetSize 1 = 2 ^ 21 by decide] at vaddrWhole ⊢
      refine ⟨by omega, ?_⟩
      rw [if_neg (by omega), if_pos (by omega)]
    · rw [show targetSize 2 = 2 ^ 12 by decide] at vaddrWhole ⊢
      refine ⟨by omega, ?_⟩
      rw [if_neg (by omega), if_neg (by omega)]
  exact ⟨depthAndAligned.1, depthAndAligned.2, onePage depthAndAligned.2⟩

include wellFormed in
/-- Mapping a page below no larger leaf maps it, or finds its entry in use. -/
theorem enter_cases
    {state after : PgtblState}
    {result : Except Errno Unit}
    (sound : TreeSound setup state)
    (noLarger :
      ∀ level < page.target, ∀ entry,
        ¬ LeafAt setup state page.vaddr level entry)
    (entered : halPgtblEnter setup state page.request = some (result, after)) :
    (result = .ok () ∧
        MapRun setup page.vaddr page.target page.pte 0 state (.ok ()) after) ∨
      (result = .error .ebusy ∧
        EntryBusy setup state page.vaddr page.target ∧
        ∃ visited, after = { state with visited := visited }) := by
  obtain ⟨_, depth, pages⟩ := wellFormed.request_facts
  have mappable :
      PagesMappable setup state page.request.prot page.request.leafDepth
        page.request.pages page.request.vaddr := by
    intro number bound
    rw [pages] at bound
    obtain rfl := Nat.lt_one_iff.mp bound
    right
    refine ⟨wellFormed.asked, fun level above entry => ?_⟩
    rw [Nat.zero_mul, Nat.add_zero]
    rw [depth] at above
    exact noLarger level above entry
  obtain ⟨_, run⟩ := halPgtblEnter_run sound mappable entered
  rw [depth, pages] at run
  cases run with
  | @failed _ _ _ _ _ code memory _ run =>
      right
      have busy := run.busy_of_error sound memory
      obtain ⟨refused, same⟩ := run.eq_of_busy sound busy
      exact ⟨refused, busy, same⟩
  | next _ run later =>
      left
      cases later
      exact ⟨rfl, run⟩

include wellFormed in
/-- What the reader says about a mapped page. -/
theorem extract_eq
    {state : PgtblState}
    (sound : TreeSound setup state)
    (leaf : LeafAt setup state page.vaddr page.target page.pte) :
    ∃ mapping,
      halPgtblExtract setup state.mem page.vaddr = .ok mapping ∧
        mapping.paddr >>> pageShift = page.frame ∧
        mapping.pgsize = targetSize page.target ∧
        ∀ flags,
          (flags ||| mapping.flags) &&& vmFlagsUnmanaged =
            flags &&& vmFlagsUnmanaged := by
  refine ⟨_, halPgtblExtract_of_leaf sound leaf, wellFormed.mapping_pfn _, rfl,
    fun flags => ?_⟩
  have attributes :=
    (leafPte_attributes page.prot page.flags (page.frame <<< pageShift)).2.2
  have inMask :
      (mappingOf page.pte (2 - page.target)).flags =
        page.flags &&& vmFlagsPteMask :=
    congrArg Prod.snd attributes
  have apart : vmFlagsPteMask &&& vmFlagsUnmanaged = 0 := by decide
  rw [inMask, Nat.and_or_distrib_right, Nat.and_assoc, apart, Nat.and_zero,
    Nat.or_zero]

end Sound

/-- The state after the cluster of a managed page was returned. -/
def released
    (page : MappedPage)
    (unmanaged : Bool)
    (state : VmState) : VmState :=
  if unmanaged then
    state
  else
    state.returnCluster page.frame page.pageOrder

namespace Sound

variable {page : MappedPage}
variable {unmanaged : Bool}
variable (wellFormed : page.Sound)
variable (sound : TreeSound setup state.pgtbl)
variable (leaf : LeafAt setup state.pgtbl page.vaddr page.target page.pte)
variable
  (held : unmanaged = false → ClusterHeld state page.frame page.pageOrder)

include held sound in
theorem released_otherWork :
    OtherWork state.pgtbl (page.released unmanaged state).pgtbl := by
  cases unmanaged with
  | true =>
      exact OtherWork.refl sound
  | false =>
      exact (held rfl).otherWork sound

include wellFormed sound leaf held in
/-- One round of the remover returns the cluster and clears the entry. -/
theorem unmapPage_run
    (own : setup.OwnAddr page.vaddr)
    (removed : unmapPage setup state unmanaged page.vaddr = some after) :
    ClearRun setup page.vaddr page.target none
        (page.released unmanaged state).pgtbl after.pgtbl ∧
      after.order = state.order := by
  obtain ⟨mapping, extracted, frame, _, _⟩ := wellFormed.extract_eq sound leaf
  have work := released_otherWork sound held
  have dropped :
      dropMapped setup state unmanaged (.ok mapping) = none ∨
        dropMapped setup state unmanaged (.ok mapping) =
          some (page.released unmanaged state) := by
    cases unmanaged with
    | true =>
        exact .inr rfl
    | false =>
        simp only [dropMapped, frame, (held rfl).pfdbDecPageUseCount,
          Bool.false_eq_true, if_false]
        split_ifs
        · exact .inr rfl
        · exact .inl rfl
  have sameOrder : (page.released unmanaged state).order = state.order := by
    cases unmanaged <;> rfl
  rw [unmapPage, extracted] at removed
  rcases dropped with stops | dropped
  · rw [stops] at removed
    cases removed
  · rw [dropped] at removed
    obtain ⟨pgtbl, cleared, rfl⟩ := Option.map_eq_some_iff.mp removed
    have releasedSound := work.treeSound sound
    obtain ⟨level, entry, found, run⟩ :=
      removeTableReference_run releasedSound own cleared
    -- the leaf of the page is the only one on its way
    have same : LeafAt setup (page.released unmanaged state).pgtbl page.vaddr
        page.target page.pte :=
      ⟨(work.entryAt sound).mpr leaf.1, leaf.2⟩
    obtain ⟨rfl, _⟩ := releasedSound.leafAt_unique found same
    exact ⟨run, sameOrder⟩

include wellFormed sound leaf in
/-- `hal_pgtbl_remove` on a mapped page is one round. -/
theorem vmPgtblRemove_eq
    (flags : Nat) :
    ∀ mapping,
      halPgtblExtract setup state.pgtbl.mem page.vaddr = .ok mapping →
      vmPgtblRemove setup state page.vaddr (flags ||| mapping.flags)
          mapping.pgsize =
        unmapPage setup state (flags &&& vmFlagsUnmanaged != 0)
          page.vaddr := by
  intro mapping extracted
  obtain ⟨found, same, _, size, attributes⟩ :=
    wellFormed.extract_eq sound leaf
  rw [extracted] at same
  cases same
  have next :
      (page.vaddr + targetSize page.target) % addressSpace =
        page.vaddr + targetSize page.target :=
    Nat.mod_eq_of_lt wellFormed.inSpace
  have positive := targetSize_pos page.target
  have small := pageSize_dvd_targetSize wellFormed.targetBound
  have vaddrAligned : aligned page.vaddr pageSize = true := by
    rw [aligned, beq_iff_eq]
    exact Nat.mod_eq_zero_of_dvd (small.trans wellFormed.vaddr_dvd)
  have endAligned :
      aligned (page.vaddr + targetSize page.target) pageSize = true := by
    rw [aligned, beq_iff_eq]
    exact Nat.mod_eq_zero_of_dvd
      (Nat.dvd_add (small.trans wellFormed.vaddr_dvd) small)
  obtain ⟨rounds, enough⟩ : ∃ rounds, removeRounds = rounds + 2 :=
    ⟨2 ^ 52 - 1, by decide⟩
  rw [vmPgtblRemove]
  simp only [size, next, vaddrAligned, endAligned, Bool.and_self, if_true,
    attributes, enough]
  rw [unmapLoop, if_pos (by omega)]
  cases removed :
      unmapPage setup state (flags &&& vmFlagsUnmanaged != 0) page.vaddr with
  | none =>
      rfl
  | some after =>
      simp only [extracted, pgsizeAfter, size, next]
      rw [unmapLoop, if_neg (lt_irrefl _)]

include wellFormed sound leaf in
/-- A round of `vm_unmap_common` unmaps the page and goes on behind it. -/
theorem vmUnmapLoop_round
    {flags endVaddr rounds mapFlags mapPgsize : Nat}
    {force : Bool}
    {result : Except Errno Unit}
    (more : page.vaddr < endVaddr)
    (unmapped :
      vmUnmapLoop setup flags force endVaddr (rounds + 1) mapFlags mapPgsize
        page.vaddr state = some (result, after)) :
    ∃ middle nextFlags,
      unmapPage setup state (flags &&& vmFlagsUnmanaged != 0) page.vaddr =
          some middle ∧
        vmUnmapLoop setup flags force endVaddr rounds nextFlags
          (targetSize page.target) (page.vaddr + targetSize page.target)
          middle = some (result, after) := by
  obtain ⟨mapping, extracted, _, size, _⟩ := wellFormed.extract_eq sound leaf
  have removed := wellFormed.vmPgtblRemove_eq sound leaf flags mapping extracted
  rw [vmUnmapLoop, if_pos more] at unmapped
  simp only [extracted, removed] at unmapped
  cases middle :
      unmapPage setup state (flags &&& vmFlagsUnmanaged != 0) page.vaddr with
  | none =>
      rw [middle] at unmapped
      cases force <;> cases unmapped
  | some middle' =>
      refine ⟨middle', mapping.flags, rfl, ?_⟩
      rw [middle, size, Nat.mod_eq_of_lt wellFormed.inSpace] at unmapped
      cases force <;> exact unmapped

end Sound

end MappedPage

end RiscvWorkshop.Vm
