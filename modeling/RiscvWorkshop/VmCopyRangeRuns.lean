import Mathlib
import RiscvWorkshop.VmCopyRange

namespace RiscvWorkshop.Vm

open Pgtbl

/-!
# Copied ranges

A copy goes from page to page of the source.  The invariant says which pages
the destination has got so far, and what they hold: a page that is not managed
is the source's, unless the destination used its entry before, and a managed
page holds the last page of normal size of the source page, and zeros.  From it
follow what a call that fails undoes, and where a call that succeeds has copied
the range.
-/

variable {setup srcSetup : PgtblSetup}
variable {pool : PagePool}
variable {before : PgtblState}
variable {state after : VmState}
variable {unmanaged : Bool}
variable {page : MappedPage}
variable {pages : List MappedPage}
variable {source : Mapping}
variable {flags target vaddr curVaddr staVaddr endVaddr : Nat}

/-! ## Pages that a call leaves alone -/

/-- Pages that are no tables and not free keep their contents. -/
structure OthersKept (before after : PgtblState) : Prop where
  tables :
    ∀ pfn ∈ after.tables, pfn ∈ before.tables ∨ pfn ∈ before.free
  free : ∀ pfn ∈ after.free, pfn ∈ before.tables ∨ pfn ∈ before.free
  mem :
    ∀ pfn ∉ before.tables, pfn ∉ before.free → after.mem pfn = before.mem pfn

namespace OthersKept

variable {first middle final : PgtblState}

theorem refl (state : PgtblState) : OthersKept state state :=
  { tables := fun _ => .inl
    free := fun _ => .inr
    mem := fun _ _ _ => rfl }

theorem trans
    (earlier : OthersKept first middle)
    (later : OthersKept middle final) :
    OthersKept first final :=
  { tables := fun pfn known =>
      (later.tables pfn known).elim (earlier.tables pfn) (earlier.free pfn)
    free := fun pfn known =>
      (later.free pfn known).elim (earlier.tables pfn) (earlier.free pfn)
    mem := fun pfn notTable notFree =>
      (later.mem pfn
        (fun known => (earlier.tables pfn known).elim notTable notFree)
        (fun known => (earlier.free pfn known).elim notTable notFree)).trans
        (earlier.mem pfn notTable notFree) }

theorem of_framesKept
    (kept : FramesKept first final) :
    OthersKept first final :=
  { tables := kept.tables
    free := kept.free
    mem := kept.mem }

/-- Taking a cluster and filling its first page. -/
theorem of_taken
    {pfn order : Nat}
    (sound : TreeSound setup state.pgtbl)
    (taken : pgifGetFreePageCluster pool state order = some (pfn, after))
    (words : Nat → Nat) :
    OthersKept state.pgtbl (after.setPage pfn words).pgtbl := by
  obtain ⟨work, _, isFree, free, _, _, _, mem⟩ :=
    pgifGetFreePageCluster_spec sound taken
  refine
    { tables := fun other known => .inl (work.tables ▸ known)
      free := fun other known => .inr ?_
      mem := fun other _ notFree => ?_ }
  · have filtered : other ∈ after.pgtbl.free := known
    rw [free] at filtered
    exact List.mem_of_mem_filter filtered
  · have outside : other ∉ cluster pfn order :=
      fun inside => notFree (isFree inside)
    have different : other ≠ pfn := by
      rintro rfl
      exact outside (head_mem_cluster other order)
    exact (Function.update_of_ne different ..).trans (mem other outside)

end OthersKept

/-- A cluster is held whatever its pages hold. -/
theorem ClusterHeld.setPage
    {pfn order : Nat}
    (held : ClusterHeld state pfn order)
    (frame : Nat)
    (words : Nat → Nat) :
    ClusterHeld (state.setPage frame words) pfn order :=
  { usecnt := held.usecnt
    sized := held.sized
    apart := held.apart
    tail := held.tail }

/-- Filling a page of a cluster that is held is work on another page. -/
theorem ClusterHeld.setPage_otherWork
    {pfn order : Nat}
    (held : ClusterHeld state pfn order)
    (sound : TreeSound setup state.pgtbl)
    (words : Nat → Nat) :
    OtherWork state.pgtbl (state.setPage pfn words).pgtbl :=
  { tables := rfl
    nrPages := rfl
    visited := rfl
    mem := fun table known => by
      refine Function.update_of_ne ?_ ..
      rintro rfl
      exact held.head_apart.1 known
    usecnt := fun _ _ => rfl
    freeNodup := sound.freeNodup
    freeFresh := sound.freeFresh }

/-! ## What a range of the source holds -/

/-- The source maps a page of a size at an address. -/
structure SourceAt
    (srcSetup : PgtblSetup)
    (before : PgtblState)
    (vaddr target : Nat)
    (source : Mapping) : Prop where
  found : halPgtblExtract srcSetup before.mem vaddr = .ok source
  size : source.pgsize = targetSize target
  bound : target ≤ 2

/-- The source is the destination, or lies in pages that are left alone. -/
inductive SourceKept
    (setup srcSetup : PgtblSetup)
    (before : PgtblState)
    (staVaddr endVaddr : Nat) : Prop where
  | same
      (table : srcSetup = setup)
  | apart
      (walks :
        ∀ vaddr, staVaddr ≤ vaddr → vaddr < endVaddr →
          ∀ table ∈ extractTrail before.mem vaddr pgtblLvlNr srcSetup.base,
            table ∉ before.tables ∧ table ∉ before.free)
      (frames :
        ∀ vaddr, staVaddr ≤ vaddr → vaddr < endVaddr →
          ∀ target source, SourceAt srcSetup before vaddr target source →
            ∀ number < source.pgsize / pageSize,
              (source.paddr >>> pageShift) + number ∉ before.tables ∧
                (source.paddr >>> pageShift) + number ∉ before.free)

/--
A range of user pages that begins with a page of the source, and where the
destination maps no larger page than the source.
-/
structure CopyRange
    (setup srcSetup : PgtblSetup)
    (before : PgtblState)
    (unmanaged : Bool)
    (staVaddr endVaddr : Nat) : Prop where
  inSpace : endVaddr + targetSize 0 ≤ addressSpace
  own :
    ∀ vaddr, staVaddr ≤ vaddr → vaddr < endVaddr → setup.OwnAddr vaddr
  translated :
    ∀ vaddr, staVaddr ≤ vaddr → vaddr < endVaddr → InSv39 vaddr
  start :
    ∀ target source, SourceAt srcSetup before staVaddr target source →
      targetSize target ∣ staVaddr
  aligned :
    unmanaged = true →
      ∀ vaddr, staVaddr ≤ vaddr → vaddr < endVaddr →
        ∀ target source, SourceAt srcSetup before vaddr target source →
          targetSize target ∣ source.paddr
  noLarger :
    ∀ vaddr, staVaddr ≤ vaddr → vaddr < endVaddr →
      ∀ target source, SourceAt srcSetup before vaddr target source →
        ∀ level < target, ∀ entry, ¬ LeafAt setup before vaddr level entry
  kept : SourceKept setup srcSetup before staVaddr endVaddr

/-- The destination uses no entry of the pages that a range of the source maps. -/
def NoneBusy
    (setup srcSetup : PgtblSetup)
    (before : PgtblState)
    (staVaddr endVaddr : Nat) : Prop :=
  ∀ vaddr, staVaddr ≤ vaddr → vaddr < endVaddr →
    ∀ target source, SourceAt srcSetup before vaddr target source →
      ¬ EntryBusy setup before vaddr target

/-- Two addresses of a page of the source find it. -/
theorem SourceAt.of_sameEntry
    {other : Nat}
    (found : SourceAt srcSetup before vaddr target source)
    (same : other / targetSize target = vaddr / targetSize target) :
    SourceAt srcSetup before other target source :=
  { found := extractLoop_uniform le_rfl found.found (found.size ▸ same)
    size := found.size
    bound := found.bound }

theorem targetSize_inj
    {first second : Nat}
    (firstBound : first ≤ 2)
    (secondBound : second ≤ 2)
    (same : targetSize first = targetSize second) :
    first = second := by
  have levels :=
    (pgtblCalcPagesize_inj (by rw [pgtblLvlNr]; omega)
      (by rw [pgtblLvlNr]; omega)).mp same
  omega

theorem SourceAt.unique
    {other : Nat}
    {otherSource : Mapping}
    (found : SourceAt srcSetup before vaddr target source)
    (otherFound : SourceAt srcSetup before vaddr other otherSource) :
    other = target ∧ otherSource = source := by
  have same : Except.ok otherSource = Except.ok source :=
    otherFound.found.symm.trans found.found
  cases same
  exact ⟨targetSize_inj otherFound.bound found.bound
    (otherFound.size.symm.trans found.size), rfl⟩

/-- What a page table maps itself uses an entry. -/
theorem SourceAt.busy
    (found : SourceAt setup before vaddr target source)
    (sound : TreeSound setup before) :
    EntryBusy setup before vaddr target := by
  obtain ⟨depth, pte, leaf, rfl⟩ := leafAt_of_halPgtblExtract sound found.found
  obtain ⟨⟨table, walk, holds⟩, valid, _⟩ := leaf
  have bound : depth ≤ 2 := Nat.lt_succ_iff.mp (sound.depth_lt walk)
  obtain rfl := targetSize_inj bound found.bound found.size
  exact ⟨pte, ⟨table, walk, holds⟩, valid⟩

/-- Entries that were in use stay in use while pages are mapped. -/
theorem Grown.busy
    {middle : PgtblState}
    (grown : Grown setup before middle)
    (sound : TreeSound setup before)
    (busy : EntryBusy setup before vaddr target) :
    EntryBusy setup middle vaddr target := by
  obtain ⟨entry, ⟨table, walk, holds⟩, valid⟩ := busy
  have same := (grown.entries table (sound.mem_tables walk)).2 _ (holds ▸ valid)
  exact ⟨entry, ⟨table, grown.entries.tableAt walk, same.trans holds⟩, valid⟩

/-! ## Where a copy stands -/

/-- What a page that was mapped for a page of the source holds. -/
structure CopyOf
    (before : PgtblState)
    (unmanaged : Bool)
    (state : VmState)
    (page : MappedPage)
    (source : Mapping) : Prop where
  prot : page.prot = source.prot
  frame : unmanaged = true → page.frame <<< pageShift = source.paddr
  fresh :
    unmanaged = false →
      ∀ frame ∈ cluster page.frame page.pageOrder, frame ∈ before.free
  words :
    unmanaged = false →
      ∀ number < 2 ^ page.pageOrder, ∀ idx < pageWords,
        state.pgtbl.mem (page.frame + number) idx =
          if number = 0 then
            before.mem
              ((source.paddr >>> pageShift) + (2 ^ page.pageOrder - 1)) idx
          else
            0

/-- The copy has dealt with an address: its page was mapped, or passed over. -/
inductive PageDone
    (setup srcSetup : PgtblSetup)
    (before : PgtblState)
    (unmanaged : Bool)
    (state : VmState)
    (pages : List MappedPage)
    (vaddr : Nat) : Prop where
  | copied
      (page : MappedPage)
      (source : Mapping)
      (found : SourceAt srcSetup before vaddr page.target source)
      (member : page ∈ pages)
      (selects : page.Selects vaddr)
      (unused : ¬ EntryBusy setup before vaddr page.target)
      (copy : CopyOf before unmanaged state page source)
  | passed
      (target : Nat)
      (source : Mapping)
      (found : SourceAt srcSetup before vaddr target source)
      (isUnmanaged : unmanaged = true)
      (busy : EntryBusy setup before vaddr target)
      (outside : ∀ page ∈ pages, ¬ page.Selects vaddr)

/-- Where the loop stands: the pages of the source below an address are done. -/
structure CopiedTo
    (setup srcSetup : PgtblSetup)
    (before : PgtblState)
    (unmanaged : Bool)
    (staVaddr endVaddr : Nat)
    (state : VmState)
    (pages : List MappedPage)
    (curVaddr : Nat) : Prop where
  mapped : MappedTo setup before (!unmanaged) staVaddr 0 state pages curVaddr
  kept : OthersKept before state.pgtbl
  sameTable : srcSetup = setup → pages = []
  origins :
    ∀ page ∈ pages, page.vaddr < endVaddr ∧
      ∃ source, SourceAt srcSetup before page.vaddr page.target source
  next :
    staVaddr < curVaddr →
      ∀ target source, SourceAt srcSetup before (curVaddr - 1) target source →
        targetSize target ∣ curVaddr
  done :
    ∀ vaddr, staVaddr ≤ vaddr → vaddr < curVaddr → vaddr < endVaddr →
      PageDone setup srcSetup before unmanaged state pages vaddr
  consecutive :
    (unmanaged = true →
        NoneBusy setup srcSetup before staVaddr endVaddr) →
      Consecutive staVaddr pages curVaddr

namespace CopiedTo

/-- Before the first page the range is copied up to its start. -/
theorem nil
    (sound : TreeSound setup state.pgtbl)
    (tidy : Tidy setup state.pgtbl)
    (inSpace : staVaddr < addressSpace) :
    CopiedTo setup srcSetup state.pgtbl unmanaged staVaddr endVaddr state []
      staVaddr :=
  { mapped := MappedTo.nil sound tidy inSpace
    kept := OthersKept.refl _
    sameTable := fun _ => rfl
    origins := fun _ impossible => nomatch impossible
    next := fun absurdity => absurd absurdity (lt_irrefl _)
    done := fun _ lower upper => absurd upper (Nat.not_lt.mpr lower)
    consecutive := fun _ => rfl }

variable
  (copied :
    CopiedTo setup srcSetup before unmanaged staVaddr endVaddr state pages
      curVaddr)
variable
  (range : CopyRange setup srcSetup before unmanaged staVaddr endVaddr)

include copied range in
/-- The copy reads the source as it was before the call. -/
theorem source_eq
    (sound : TreeSound setup before)
    (lower : staVaddr ≤ vaddr)
    (upper : vaddr < endVaddr) :
    halPgtblExtract srcSetup state.pgtbl.mem vaddr =
      halPgtblExtract srcSetup before.mem vaddr := by
  cases range.kept with
  | same table =>
      have holding := copied.mapped.holding
      rw [copied.sameTable table] at holding
      rw [table]
      exact holding.extract_eq sound vaddr
  | apart walks =>
      refine extractLoop_of_trail fun known onTrail => ?_
      obtain ⟨notTable, notFree⟩ := walks vaddr lower upper known onTrail
      exact copied.kept.mem known notTable notFree

include copied range in
/-- The loop goes from the start of a page of the source to the next. -/
theorem targetSize_dvd
    (found : SourceAt srcSetup before curVaddr target source) :
    targetSize target ∣ curVaddr := by
  rcases Nat.eq_or_lt_of_le copied.mapped.start with atStart | later
  · exact atStart ▸ range.start target source (atStart ▸ found)
  · by_contra inside
    have positive := targetSize_pos target
    have same :
        (curVaddr - 1) / targetSize target = curVaddr / targetSize target := by
      have split := Nat.div_add_mod curVaddr (targetSize target)
      have rest : curVaddr % targetSize target ≠ 0 :=
        fun none => inside (Nat.dvd_of_mod_eq_zero none)
      have small := Nat.mod_lt curVaddr positive
      rw [Nat.div_eq_iff positive]
      constructor
      · rw [Nat.mul_comm]
        omega
      · rw [Nat.mul_comm]
        omega
    exact inside (copied.next later target source (found.of_sameEntry same))

/-- The addresses of a page that starts at an address. -/
theorem div_targetSize_eq
    (isAligned : targetSize target ∣ curVaddr)
    (lower : curVaddr ≤ vaddr)
    (upper : vaddr < curVaddr + targetSize target) :
    vaddr / targetSize target = curVaddr / targetSize target := by
  obtain ⟨number, rfl⟩ := isAligned
  rw [Nat.mul_div_cancel_left _ (targetSize_pos target),
    Nat.div_eq_iff (targetSize_pos target), Nat.mul_comm number]
  exact ⟨by omega, by omega⟩

include copied range in
/-- Behind the page of the source that is found, the next one starts. -/
theorem next_of_found
    (found : SourceAt srcSetup before curVaddr target source) :
    ∀ other otherSource,
      SourceAt srcSetup before (curVaddr + targetSize target - 1) other
          otherSource →
        targetSize other ∣ curVaddr + targetSize target := by
  intro other otherSource otherFound
  have isAligned := copied.targetSize_dvd range found
  have positive := targetSize_pos target
  have same := div_targetSize_eq isAligned
    (show curVaddr ≤ curVaddr + targetSize target - 1 by omega) (by omega)
  obtain ⟨rfl, _⟩ := (found.of_sameEntry same).unique otherFound
  exact Nat.dvd_add isAligned (dvd_refl _)

end CopiedTo

theorem CopyOf.of_kept
    (copy : CopyOf before unmanaged state page source)
    (held : (!unmanaged) = true → ClusterHeld state page.frame page.pageOrder)
    (kept : OthersKept state.pgtbl after.pgtbl) :
    CopyOf before unmanaged after page source :=
  { prot := copy.prot
    frame := copy.frame
    fresh := copy.fresh
    words := by
      intro isManaged number bound idx inside
      have inCluster :
          page.frame + number ∈ cluster page.frame page.pageOrder := by
        rw [mem_cluster]
        omega
      obtain ⟨notTable, notFree, _⟩ :=
        (held (by rw [isManaged]; rfl)).apart _ inCluster
      rw [kept.mem _ notTable notFree]
      exact copy.words isManaged number bound idx inside }

/-- What is done stays done while later pages are copied. -/
theorem PageDone.of_kept
    {loose : Nat}
    {later : List MappedPage}
    (done : PageDone setup srcSetup before unmanaged state pages vaddr)
    (holding : Holding setup before (!unmanaged) loose state pages)
    (kept : OthersKept state.pgtbl after.pgtbl)
    (apart : ∀ page ∈ later, ¬ page.Selects vaddr) :
    PageDone setup srcSetup before unmanaged after (pages ++ later) vaddr := by
  cases done with
  | copied page source found member selects unused copy =>
      refine .copied page source found (List.mem_append_left later member)
        selects unused (copy.of_kept (fun isManaged => ?_) kept)
      exact holding.held isManaged page member
  | passed target source found isUnmanaged busy outside =>
      refine .passed target source found isUnmanaged busy fun page member => ?_
      exact (List.mem_append.mp member).elim (outside page) (apart page)

namespace CopiedTo

variable
  (copied :
    CopiedTo setup srcSetup before unmanaged staVaddr endVaddr state pages
      curVaddr)
variable
  (range : CopyRange setup srcSetup before unmanaged staVaddr endVaddr)
variable (more : curVaddr < endVaddr)

include copied range more in
/-- In the range, the addresses of a page are those of its entry. -/
theorem sameEntry_of_inPage
    (found : SourceAt srcSetup before curVaddr target source)
    (lower : curVaddr ≤ vaddr)
    (upper : vaddr < curVaddr + targetSize target)
    (inRange : vaddr < endVaddr) :
    SourceAt srcSetup before vaddr target source ∧
      SameEntry target vaddr curVaddr := by
  have start := copied.mapped.start
  have same :=
    div_targetSize_eq (copied.targetSize_dvd range found) lower upper
  refine ⟨found.of_sameEntry same, ?_⟩
  rwa [sameEntry_iff_of_inSv39 found.bound
    (range.translated vaddr (start.trans lower) inRange)
    (range.translated curVaddr start more)]

include copied range more in
/-- A page that was mapped for the page of the source is done. -/
theorem append
    (found : SourceAt srcSetup before page.vaddr page.target source)
    (here : page.vaddr = curVaddr)
    (mapped :
      MappedTo setup before (!unmanaged) staVaddr 0 after (pages ++ [page])
        (curVaddr + targetSize page.target))
    (kept : OthersKept state.pgtbl after.pgtbl)
    (sound : TreeSound setup before)
    (unused : ¬ EntryBusy setup before page.vaddr page.target)
    (copy : CopyOf before unmanaged after page source) :
    CopiedTo setup srcSetup before unmanaged staVaddr endVaddr after
      (pages ++ [page]) (curVaddr + targetSize page.target) := by
  have start := copied.mapped.start
  rw [here] at found unused
  refine
    { mapped := mapped
      kept := copied.kept.trans kept
      sameTable := fun same => absurd ((same ▸ found).busy sound) unused
      origins := fun other member => ?_
      next := fun _ => copied.next_of_found range found
      done := fun vaddr lower upper inRange => ?_
      consecutive := fun noneBusy => (copied.consecutive noneBusy).append here }
  · rcases List.mem_append.mp member with earlier | isPage
    · exact copied.origins other earlier
    · obtain rfl := List.mem_singleton.mp isPage
      exact ⟨here ▸ more, source, here ▸ found⟩
  rcases Nat.lt_or_ge vaddr curVaddr with earlier | behind
  · refine (copied.done vaddr lower earlier inRange).of_kept
      copied.mapped.holding kept fun other isPage selects => ?_
    obtain rfl := List.mem_singleton.mp isPage
    -- the page starts behind the address
    have same : SameEntry other.target vaddr curVaddr := here ▸ selects
    rw [sameEntry_iff_of_inSv39 found.bound
      (range.translated vaddr lower inRange)
      (range.translated curVaddr start more)] at same
    obtain ⟨number, isStart⟩ := copied.targetSize_dvd range found
    have before := Nat.lt_of_lt_of_eq earlier isStart
    rw [isStart, Nat.mul_div_cancel_left _ (targetSize_pos _)] at same
    have least := Nat.mul_div_le vaddr (targetSize other.target)
    rw [same] at least
    omega
  · obtain ⟨vaddrFound, same⟩ :=
      copied.sameEntry_of_inPage range more found behind upper inRange
    exact .copied page source vaddrFound
      (List.mem_append_right pages List.mem_cons_self)
      (show SameEntry page.target vaddr page.vaddr from here ▸ same)
      (fun busy => unused (busy.of_sameEntry same.symm)) copy

include copied range more in
/-- A page that is not managed is passed over when its entry was in use. -/
theorem skip
    (found : SourceAt srcSetup before curVaddr target source)
    (isUnmanaged : unmanaged = true)
    (busy : EntryBusy setup before curVaddr target)
    (visited : List (Nat × Bool)) :
    CopiedTo setup srcSetup before unmanaged staVaddr endVaddr
      { state with pgtbl := { state.pgtbl with visited := visited } } pages
      (curVaddr + targetSize target) := by
  have start := copied.mapped.start
  have inSpace := range.inSpace
  have isAligned := copied.targetSize_dvd range found
  have largest : targetSize target ≤ targetSize 0 := by
    have bound := found.bound
    interval_cases target <;> decide
  have kept :
      OthersKept state.pgtbl { state.pgtbl with visited := visited } :=
    .of_framesKept (FramesKept.of_visited _ visited)
  refine
    { mapped :=
        (copied.mapped.visited visited).skip (Nat.le_add_right _ _) (by omega)
      kept := copied.kept.trans kept
      sameTable := copied.sameTable
      origins := copied.origins
      next := fun _ => copied.next_of_found range found
      done := fun vaddr lower upper inRange => ?_
      consecutive := fun noneBusy =>
        absurd busy
          (noneBusy isUnmanaged curVaddr start more target source found) }
  rcases Nat.lt_or_ge vaddr curVaddr with earlier | behind
  · rw [← List.append_nil pages]
    exact (copied.done vaddr lower earlier inRange).of_kept
      copied.mapped.holding kept fun _ impossible => nomatch impossible
  · obtain ⟨vaddrFound, same⟩ :=
      copied.sameEntry_of_inPage range more found behind upper inRange
    have apart :=
      copied.mapped.apart found.bound isAligned
        (range.translated curVaddr start more)
    exact .passed target source vaddrFound isUnmanaged
      (busy.of_sameEntry same) fun page member =>
        apart page member vaddr same

end CopiedTo

/-! ## The copy of one page -/

namespace CopiedTo

variable
  (copied :
    CopiedTo setup srcSetup before unmanaged staVaddr endVaddr state pages
      page.vaddr)
variable
  (range : CopyRange setup srcSetup before unmanaged staVaddr endVaddr)
variable (more : page.vaddr < endVaddr)

include copied range more in
/-- Mapping the copy of a page ends the round, or finds its entry in use. -/
theorem enter_cases
    {middle : VmState}
    {pgtbl : PgtblState}
    {result : Except Errno Unit}
    (sound : TreeSound setup before)
    (wellFormed : page.Sound)
    (found : SourceAt srcSetup before page.vaddr page.target source)
    (mapped :
      MappedTo setup before (!unmanaged) staVaddr
        (if (!unmanaged) = true then 2 ^ page.pageOrder else 0) middle pages
        page.vaddr)
    (kept : OthersKept state.pgtbl middle.pgtbl)
    (held :
      (!unmanaged) = true →
        ClusterHeld middle page.frame page.pageOrder ∧
          ∀ other ∈ pages,
            (cluster other.frame other.pageOrder).Disjoint
              (cluster page.frame page.pageOrder))
    (copy : srcSetup ≠ setup → CopyOf before unmanaged middle page source)
    (entered :
      halPgtblEnter setup middle.pgtbl page.request = some (result, pgtbl)) :
    (result = .ok () ∧
        CopiedTo setup srcSetup before unmanaged staVaddr endVaddr
          { middle with pgtbl := pgtbl } (pages ++ [page])
          (page.vaddr + targetSize page.target)) ∨
      (result = .error .ebusy ∧
        EntryBusy setup before page.vaddr page.target ∧
        ∃ visited, pgtbl = { middle.pgtbl with visited := visited }) := by
  have start := copied.mapped.start
  have own := range.own page.vaddr start more
  have inSv39 := range.translated page.vaddr start more
  have apart := mapped.apart wellFormed.targetBound wellFormed.vaddr_dvd inSv39
  have noLarger :=
    mapped.noLarger apart
      (range.noLarger page.vaddr start more page.target source found)
  have middleSound := mapped.holding.sound
  rcases wellFormed.enter_cases middleSound noLarger entered with
    ⟨rfl, run⟩ | ⟨rfl, busy, visited, rfl⟩
  · left
    have framesKept := OthersKept.of_framesKept (run.framesKept middleSound)
    have unused :=
      (run.pageMapped middleSound wellFormed.leaf.1 wellFormed.leaf.2).unused
    have unusedBefore : ¬ EntryBusy setup before page.vaddr page.target :=
      fun busy => unused (mapped.grown.busy sound busy)
    have different : srcSetup ≠ setup :=
      fun same => unusedBefore ((same ▸ found).busy sound)
    exact ⟨rfl, copied.append range more found rfl
      (mapped.map wellFormed own inSv39 noLarger held run)
      (kept.trans framesKept) sound unusedBefore
      ((copy different).of_kept (fun isManaged => (held isManaged).1)
        framesKept)⟩
  · exact .inr ⟨rfl, mapped.busy_before own apart sound busy, visited, rfl⟩

end CopiedTo

namespace CopiedTo

variable
  (copied :
    CopiedTo setup srcSetup before unmanaged staVaddr endVaddr state pages
      curVaddr)
variable
  (range : CopyRange setup srcSetup before unmanaged staVaddr endVaddr)
variable (more : curVaddr < endVaddr)

include copied range more in
/-- The page that a copy maps for a page of the source. -/
theorem page_sound
    {frame : Nat}
    (found : SourceAt srcSetup before curVaddr target source)
    (asked : source.prot &&& vmProtMask ≠ 0)
    (frame_dvd : 2 ^ (9 * (2 - target)) ∣ frame)
    (frameBound : frame < 2 ^ 44)
    (flags : Nat) :
    MappedPage.Sound
      { vaddr := curVaddr
        frame := frame
        prot := source.prot
        flags := flags
        target := target } := by
  have inSpace := range.inSpace
  have largest : targetSize target ≤ targetSize 0 := by
    have bound := found.bound
    interval_cases target <;> decide
  exact
    { targetBound := found.bound
      vaddr_dvd := copied.targetSize_dvd range found
      frame_dvd := frame_dvd
      inSpace := by
        show curVaddr + targetSize target < addressSpace
        omega
      frameBound := frameBound
      asked := asked }

include copied range more in
/-- The round for a page that is not managed. -/
theorem enter_unmanaged
    {frame : Nat}
    {result : Except Errno Unit}
    {pgtbl : PgtblState}
    (sound : TreeSound setup before)
    (isUnmanaged : unmanaged = true)
    (found : SourceAt srcSetup before curVaddr target source)
    (paddr : source.paddr = frame <<< pageShift)
    (frameBound : frame < 2 ^ 44)
    (asked : source.prot &&& vmProtMask ≠ 0)
    (entered :
      halPgtblEnter setup state.pgtbl
          { vaddr := curVaddr
            paddr := source.paddr
            prot := source.prot
            flags := flags
            len := source.pgsize } = some (result, pgtbl)) :
    ∃ pages,
      CopiedTo setup srcSetup before unmanaged staVaddr endVaddr
        { state with pgtbl := pgtbl } pages (curVaddr + targetSize target) := by
  subst isUnmanaged
  let page : MappedPage :=
    { vaddr := curVaddr
      frame := frame
      prot := source.prot
      flags := flags
      target := target }
  have frame_dvd : 2 ^ (9 * (2 - target)) ∣ frame := by
    have whole :=
      range.aligned rfl curVaddr copied.mapped.start more target source found
    rw [paddr, page.targetSize_eq found.bound, Nat.shiftLeft_eq,
      Nat.mul_comm frame] at whole
    exact Nat.dvd_of_mul_dvd_mul_left (by decide) whole
  have wellFormed : page.Sound :=
    copied.page_sound range more found asked frame_dvd frameBound flags
  have copy : CopyOf before true state page source :=
    { prot := rfl
      frame := fun _ => paddr.symm
      fresh := nofun
      words := nofun }
  rw [paddr, found.size] at entered
  have here : CopiedTo setup srcSetup before true staVaddr endVaddr state pages
      page.vaddr := copied
  rcases here.enter_cases range more sound wellFormed found copied.mapped
    (OthersKept.refl _) nofun (fun _ => copy) entered with
    ⟨_, next⟩ | ⟨_, busy, visited, rfl⟩
  · exact ⟨_, next⟩
  · exact ⟨_, copied.skip range more found rfl busy visited⟩

include copied range more in
/-- The copy of a managed page reads the source page, and fills a fresh one. -/
theorem copyOf_taken
    {pfn srcFrame : Nat}
    {middle : VmState}
    (different : srcSetup ≠ setup)
    (isManaged : unmanaged = false)
    (found : SourceAt srcSetup before curVaddr target source)
    (paddr : source.paddr = srcFrame <<< pageShift)
    (taken :
      pgifGetFreePageCluster pool state (9 * (2 - target)) =
        some (pfn, middle))
    (flags : Nat) :
    CopyOf before unmanaged
      (copyLoop pfn (source.pgsize / pageSize) srcFrame middle)
      { vaddr := curVaddr
        frame := pfn
        prot := source.prot
        flags := flags
        target := target }
      source := by
  subst isManaged
  let page : MappedPage :=
    { vaddr := curVaddr
      frame := pfn
      prot := source.prot
      flags := flags
      target := target }
  have stateSound := copied.mapped.holding.sound
  obtain ⟨_, _, isFree, _, _, _, _, mem⟩ :=
    pgifGetFreePageCluster_spec stateSound taken
  have nrPages : source.pgsize / pageSize = 2 ^ page.pageOrder := by
    rw [found.size, page.targetSize_eq found.bound]
    exact Nat.mul_div_cancel_left _ (by decide)
  have srcPfn : source.paddr >>> pageShift = srcFrame := by
    rw [paddr, Nat.shiftLeft_shiftRight]
  -- the pages of the source are left alone, and are none of the cluster
  have apart :
      ∀ number < 2 ^ page.pageOrder,
        srcFrame + number ∉ cluster pfn page.pageOrder ∧
          middle.pgtbl.mem (srcFrame + number) =
            before.mem (srcFrame + number) := by
    intro number bound
    cases range.kept with
    | same table =>
        exact absurd table different
    | apart _ frames =>
        have outside :=
          frames curVaddr copied.mapped.start more target source found number
            (nrPages.symm ▸ bound)
        rw [srcPfn] at outside
        have notInside :
            srcFrame + number ∉ cluster pfn page.pageOrder := fun inside =>
          (copied.kept.free _ (isFree inside)).elim outside.1 outside.2
        exact ⟨notInside, (mem _ notInside).trans
          (copied.kept.mem _ outside.1 outside.2)⟩
  obtain ⟨last, isLast⟩ : ∃ last, 2 ^ page.pageOrder = last + 1 :=
    Nat.exists_eq_succ_of_ne_zero (Nat.two_pow_pos page.pageOrder).ne'
  refine
    { prot := rfl
      frame := nofun
      fresh := fun _ frame inside => ?_
      words := fun _ number bound idx inside => ?_ }
  · have free := isFree inside
    refine (copied.kept.free frame free).resolve_left fun wasTable => ?_
    exact (stateSound.freeFresh frame free).1
      (copied.mapped.grown.entries frame wasTable).1
  · rw [nrPages, srcPfn, isLast, Nat.add_sub_cancel]
    by_cases first : number = 0
    · have notDest : ∀ number ≤ last, srcFrame + number ≠ pfn := by
        intro number bound same
        refine (apart number (by omega)).1 ?_
        rw [same]
        exact head_mem_cluster pfn page.pageOrder
      rw [if_pos first, first]
      show (copyLoop pfn (last + 1) srcFrame middle).pgtbl.mem pfn idx = _
      rw [copyLoop_words notDest inside, (apart last (by omega)).2]
    · have inCluster : pfn + number ∈ cluster pfn page.pageOrder :=
        mem_cluster.mpr ⟨Nat.le_add_right _ _, Nat.add_lt_add_left bound pfn⟩
      obtain ⟨words, filled⟩ :=
        copyLoop_setPage pfn (last + 1) srcFrame middle
      rw [if_neg first, filled]
      show Function.update middle.pgtbl.mem pfn words (pfn + number) idx = 0
      rw [Function.update_of_ne (by omega),
        pgifGetFreePageCluster_cleared taken inCluster]

include copied range more in
/-- The round for a managed page. -/
theorem enter_managed
    {pfn srcFrame : Nat}
    {middle : VmState}
    {result : Except Errno Unit}
    {pgtbl : PgtblState}
    (sound : TreeSound setup before)
    (poolAligned : pool.Aligned)
    (isManaged : unmanaged = false)
    (found : SourceAt srcSetup before curVaddr target source)
    (paddr : source.paddr = srcFrame <<< pageShift)
    (asked : source.prot &&& vmProtMask ≠ 0)
    (taken :
      pgifGetFreePageCluster pool state (9 * (2 - target)) =
        some (pfn, middle))
    (entered :
      halPgtblEnter setup
          (copyLoop pfn (source.pgsize / pageSize) srcFrame middle).pgtbl
          { vaddr := curVaddr
            paddr := pfn <<< pageShift
            prot := source.prot
            flags := flags
            len := source.pgsize } = some (result, pgtbl)) :
    (result = .ok () ∧
        ∃ pages,
          CopiedTo setup srcSetup before unmanaged staVaddr endVaddr
            { copyLoop pfn (source.pgsize / pageSize) srcFrame middle with
              pgtbl := pgtbl } pages (curVaddr + targetSize target)) ∨
      (result = .error .ebusy ∧
        ∃ after,
          pfdbDecPageUseCount
              { copyLoop pfn (source.pgsize / pageSize) srcFrame middle with
                pgtbl := pgtbl } pfn = some (true, after) ∧
            MappedTo setup before (!unmanaged) staVaddr 0 after pages
              curVaddr) := by
  have copy :=
    fun different =>
      copied.copyOf_taken range more different isManaged found paddr
        taken flags
  subst isManaged
  let page : MappedPage :=
    { vaddr := curVaddr
      frame := pfn
      prot := source.prot
      flags := flags
      target := target }
  have stateSound := copied.mapped.holding.sound
  obtain ⟨_, held, disjoint⟩ := copied.mapped.holding.take taken
  have taking := copied.mapped.take taken
  obtain ⟨head, dequeued, same⟩ := Option.map_eq_some_iff.mp taken
  have headIs : head = pfn := congrArg Prod.fst same
  rw [headIs] at dequeued
  obtain ⟨words, filled⟩ :=
    copyLoop_setPage pfn (source.pgsize / pageSize) srcFrame middle
  rw [filled] at entered copy ⊢
  have heldFilled := held.setPage pfn words
  have work := held.setPage_otherWork taking.holding.sound words
  have filling := taking.otherWork work
    (taking.holding.otherWork work
      (fun isManaged other member =>
        (taking.holding.held isManaged other member).setPage pfn words) rfl)
  have wellFormed : page.Sound :=
    copied.page_sound range more found asked (poolAligned dequeued)
      held.head_apart.2.2 flags
  have here : CopiedTo setup srcSetup before false staVaddr endVaddr state pages
      page.vaddr := copied
  rw [found.size] at entered
  rcases here.enter_cases range more sound wellFormed found filling
    (OthersKept.of_taken stateSound taken words)
    (fun isManaged => ⟨heldFilled, disjoint isManaged⟩) copy entered with
    ⟨rfl, next⟩ | ⟨rfl, _, visited, rfl⟩
  · exact .inl ⟨rfl, _, next⟩
  · have heldVisited :
        ClusterHeld
          { middle.setPage pfn words with
            pgtbl :=
              { (middle.setPage pfn words).pgtbl with visited := visited } }
          pfn (9 * (2 - target)) :=
      heldFilled.of_kept (FramesKept.of_visited _ visited) rfl
    exact .inr ⟨rfl, _, heldVisited.pfdbDecPageUseCount,
      (filling.visited visited).returned heldVisited disjoint⟩

include copied range more in
/-- A round fails without a trace, or the next page of the source is done. -/
theorem vmCopyPage_cases
    {result : Except Errno Nat}
    (sound : TreeSound setup before)
    (poolAligned : pool.Aligned)
    (asked : (flags &&& vmFlagsUnmanaged != 0) = unmanaged)
    (stepped :
      vmCopyPage setup srcSetup pool flags state curVaddr =
        some (result, after)) :
    (∃ code,
        result = .error code ∧
          MappedTo setup before (!unmanaged) staVaddr 0 after pages curVaddr) ∨
      ∃ target pages,
        target ≤ 2 ∧ result = .ok (targetSize target) ∧
          CopiedTo setup srcSetup before unmanaged staVaddr endVaddr after pages
            (curVaddr + targetSize target) := by
  have read :=
    copied.source_eq range sound copied.mapped.start more
  rw [vmCopyPage, read] at stepped
  cases extracted : halPgtblExtract srcSetup before.mem curVaddr with
  | error code =>
      rw [extracted] at stepped
      cases stepped
      exact .inl ⟨code, rfl, copied.mapped⟩
  | ok source =>
      rw [extracted] at stepped
      obtain ⟨frame, target, bound, size, paddr, frameBound, inMask, access,
        managed⟩ := exists_sourcePage extracted
      have found : SourceAt srcSetup before curVaddr target source :=
        ⟨extracted, size, bound⟩
      have sourceAsked : source.prot &&& vmProtMask ≠ 0 := by
        rw [inMask]
        exact access
      have sameAttribute :
          (flags ||| source.flags) &&& vmFlagsUnmanaged =
            flags &&& vmFlagsUnmanaged := by
        rw [Nat.and_or_distrib_right, managed, Nat.or_zero]
      simp only [sameAttribute] at stepped
      by_cases isUnmanaged : flags &&& vmFlagsUnmanaged ≠ 0
      · rw [if_pos isUnmanaged] at stepped
        obtain ⟨⟨enterResult, pgtbl⟩, entered, same⟩ :=
          Option.map_eq_some_iff.mp stepped
        cases same
        have isTrue : unmanaged = true := by
          rw [← asked]
          exact bne_iff_ne.mpr isUnmanaged
        obtain ⟨next, done⟩ :=
          copied.enter_unmanaged range more sound isTrue found paddr frameBound
            sourceAsked entered
        exact .inr ⟨target, next, bound, by rw [size], done⟩
      · rw [if_neg isUnmanaged] at stepped
        have isFalse : unmanaged = false := by
          rw [← asked]
          exact bne_eq_false_iff_eq.mpr (not_not.mp isUnmanaged)
        split_ifs at stepped with valid
        rcases Nat.eq_zero_or_pos target with rfl | small
        · -- no cluster is as large as the largest page
          have none : pgifCalcPageOrder (targetSize 0) = none := by decide
          rw [size, none] at stepped
          cases stepped
        · rw [size, pgifCalcPageOrder_targetSize bound small.ne', ← size]
            at stepped
          simp only at stepped
          split_ifs at stepped with whole
          cases taken :
              pgifGetFreePageCluster pool state (9 * (2 - target)) with
          | none =>
              rw [taken] at stepped
              cases stepped
              exact .inl ⟨_, rfl, copied.mapped⟩
          | some cluster =>
              obtain ⟨pfn, middle⟩ := cluster
              rw [taken, ← whole] at stepped
              simp only [paddr, Nat.shiftLeft_shiftRight] at stepped
              cases entered :
                  halPgtblEnter setup
                    (copyLoop pfn (source.pgsize / pageSize) frame
                      middle).pgtbl
                    { vaddr := curVaddr
                      paddr := pfn <<< pageShift
                      prot := source.prot
                      flags := flags ||| source.flags
                      len := source.pgsize } with
              | none =>
                  rw [entered] at stepped
                  cases stepped
              | some outcome =>
                  obtain ⟨enterResult, pgtbl⟩ := outcome
                  rw [entered] at stepped
                  rcases copied.enter_managed range more sound poolAligned
                    isFalse found paddr sourceAsked taken entered with
                    ⟨rfl, next, done⟩ | ⟨rfl, freed, returned, mapped⟩
                  · cases stepped
                    exact .inr ⟨target, next, bound, by rw [size], done⟩
                  · simp only [returned, Option.map_some] at stepped
                    cases stepped
                    exact .inl ⟨_, rfl, mapped⟩

include copied range in
omit more in
/-- Where the loop stands when it ends. -/
theorem vmCopyLoop_spec
    {rounds stop : Nat}
    {result : Except Errno Unit}
    (sound : TreeSound setup before)
    (poolAligned : pool.Aligned)
    (asked : (flags &&& vmFlagsUnmanaged != 0) = unmanaged)
    (looped :
      vmCopyLoop setup srcSetup pool flags endVaddr rounds curVaddr state =
        some (result, stop, after)) :
    ∃ pages,
      (∀ code,
          result = .error code →
            stop < endVaddr ∧
              MappedTo setup before (!unmanaged) staVaddr 0 after pages stop ∧
              (∀ page ∈ pages, page.vaddr < endVaddr ∧
                ∃ source,
                  SourceAt srcSetup before page.vaddr page.target source) ∧
              ((unmanaged = true →
                  NoneBusy setup srcSetup before staVaddr endVaddr) →
                Consecutive staVaddr pages stop)) ∧
        (result = .ok () →
          endVaddr ≤ stop ∧
            CopiedTo setup srcSetup before unmanaged staVaddr endVaddr after
              pages stop) := by
  induction rounds generalizing state pages curVaddr with
  | zero =>
      cases looped
  | succ rounds inductionHypothesis =>
      by_cases more : endVaddr > curVaddr
      · rw [vmCopyLoop, if_pos more] at looped
        cases stepped : vmCopyPage setup srcSetup pool flags state curVaddr with
        | none =>
            rw [stepped] at looped
            cases looped
        | some outcome =>
            obtain ⟨pageResult, middle⟩ := outcome
            rw [stepped] at looped
            rcases copied.vmCopyPage_cases range more sound poolAligned asked
              stepped with
              ⟨code, rfl, mapped⟩ | ⟨target, next, bound, rfl, done⟩
            · cases looped
              exact ⟨pages, fun _ _ =>
                ⟨more, mapped, copied.origins, copied.consecutive⟩, nofun⟩
            · simp only at looped
              rw [Nat.mod_eq_of_lt done.mapped.inSpace] at looped
              exact inductionHypothesis done looped
      · rw [vmCopyLoop, if_neg more] at looped
        cases looped
        exact ⟨pages, nofun, fun _ => ⟨Nat.le_of_not_lt more, copied⟩⟩

end CopiedTo

/-! ## Where a copy is right -/

/-- The words that the copy of a cluster leaves are those of the source. -/
theorem copiedWords_iff
    {words : Nat → Nat → Nat}
    {nrPages limit : Nat}
    (positive : 0 < nrPages) :
    (∀ number < nrPages, ∀ idx < limit,
        (if number = 0 then words (nrPages - 1) idx else 0) =
          words number idx) ↔
      nrPages = 1 ∨ ∀ number < nrPages, ∀ idx < limit, words number idx = 0 := by
  constructor
  · intro same
    refine or_iff_not_imp_left.mpr fun several number bound idx inside => ?_
    have last := same (nrPages - 1) (by omega) idx inside
    rw [if_neg (by omega)] at last
    have here := same number bound idx inside
    by_cases first : number = 0
    · rw [if_pos first] at here
      exact here.symm.trans last.symm
    · rw [if_neg first] at here
      exact here.symm
  · rintro (rfl | zero) number bound idx inside
    · obtain rfl := Nat.lt_one_iff.mp bound
      rfl
    · rw [zero number bound idx inside]
      split_ifs
      · exact zero _ (by omega) idx inside
      · rfl

/--
The destination maps a page of the size, the protection and the content of the
page of the source, which is mapped as before.
-/
def Copied
    (setup srcSetup : PgtblSetup)
    (before after : PgtblState)
    (unmanaged : Bool)
    (vaddr : Nat) : Prop :=
  ∃ source mapping,
    halPgtblExtract srcSetup before.mem vaddr = .ok source ∧
      halPgtblExtract srcSetup after.mem vaddr = .ok source ∧
      halPgtblExtract setup after.mem vaddr = .ok mapping ∧
      mapping.pgsize = source.pgsize ∧ mapping.prot = source.prot ∧
      if unmanaged then
        mapping.paddr = source.paddr
      else
        ∀ number < source.pgsize / pageSize,
          (mapping.paddr >>> pageShift) + number ∈ before.free ∧
            ∀ idx < pageWords,
              after.mem ((mapping.paddr >>> pageShift) + number) idx =
                before.mem ((source.paddr >>> pageShift) + number) idx

/--
The page of the source can be copied: its entry in the destination is not used
or maps that page, and a managed page is of normal size or empty.
-/
def PageCopies
    (setup srcSetup : PgtblSetup)
    (before : PgtblState)
    (unmanaged : Bool)
    (vaddr : Nat) : Prop :=
  ∀ target source, SourceAt srcSetup before vaddr target source →
    if unmanaged then
      ¬ EntryBusy setup before vaddr target ∨
        ∃ mapping,
          halPgtblExtract setup before.mem vaddr = .ok mapping ∧
            mapping.pgsize = source.pgsize ∧ mapping.prot = source.prot ∧
            mapping.paddr = source.paddr
    else
      source.pgsize = pageSize ∨
        ∀ number < source.pgsize / pageSize, ∀ idx < pageWords,
          before.mem ((source.paddr >>> pageShift) + number) idx = 0

/-- What the destination says about a page that was mapped. -/
theorem MappedPage.Sound.extract_copy
    (wellFormed : page.Sound)
    (sound : TreeSound setup state.pgtbl)
    (leaf : LeafAt setup state.pgtbl vaddr page.target page.pte) :
    ∃ mapping,
      halPgtblExtract setup state.pgtbl.mem vaddr = .ok mapping ∧
        mapping.pgsize = targetSize page.target ∧
        mapping.prot = page.prot &&& vmProtMask ∧
        mapping.paddr = page.frame <<< pageShift := by
  have frameBound := wellFormed.frameBound
  have shift : pageShift = 12 := rfl
  refine ⟨_, halPgtblExtract_of_leaf sound leaf, rfl, ?_, ?_⟩
  · exact congrArg Prod.fst
      (leafPte_attributes page.prot page.flags (page.frame <<< pageShift)).2.2
  · refine pteToPaddr_leafPte ?_ ?_
    · rw [Nat.shiftLeft_eq, shift]
      omega
    · rw [Nat.shiftLeft_eq]
      exact Dvd.intro_left _ rfl

/-- An address of a range that was copied is right where its page copies. -/
theorem CopiedTo.copied_iff
    (copied :
      CopiedTo setup srcSetup before unmanaged staVaddr endVaddr state pages
        curVaddr)
    (range : CopyRange setup srcSetup before unmanaged staVaddr endVaddr)
    (sound : TreeSound setup before)
    (lower : staVaddr ≤ vaddr)
    (reached : vaddr < curVaddr)
    (upper : vaddr < endVaddr) :
    Copied setup srcSetup before state.pgtbl unmanaged vaddr ↔
      PageCopies setup srcSetup before unmanaged vaddr := by
  have holding := copied.mapped.holding
  have read := copied.source_eq range sound lower upper
  cases copied.done vaddr lower reached upper with
  | copied page source found member selects unused copy =>
      have wellFormed := copied.mapped.wellFormed page member
      obtain ⟨mapping, extracted, size, prot, paddr⟩ :=
        wellFormed.extract_copy holding.sound
          (holding.leaf page member vaddr selects)
      obtain ⟨_, _, _, _, _, _, inMask, _⟩ := exists_sourcePage found.found
      have sameSize := size.trans found.size.symm
      have sameProt : mapping.prot = source.prot := by
        rw [prot, copy.prot, inMask]
      have only :
          PageCopies setup srcSetup before unmanaged vaddr ↔ _ :=
        ⟨fun all => all page.target source found, fun here other otherSource
          otherFound => by
            obtain ⟨rfl, rfl⟩ := found.unique otherFound
            exact here⟩
      rw [only]
      cases unmanaged with
      | true =>
          refine iff_of_true ?_ (.inl unused)
          exact ⟨source, mapping, found.found, read.trans found.found, extracted,
            sameSize, sameProt, paddr.trans (copy.frame rfl)⟩
      | false =>
          have nrPages : source.pgsize / pageSize = 2 ^ page.pageOrder := by
            rw [found.size, page.targetSize_eq found.bound]
            exact Nat.mul_div_cancel_left _ (by decide)
          have pfn : mapping.paddr >>> pageShift = page.frame := by
            rw [paddr, Nat.shiftLeft_shiftRight]
          have normal : source.pgsize = pageSize ↔ 2 ^ page.pageOrder = 1 := by
            rw [found.size, page.targetSize_eq found.bound]
            constructor
            · intro same
              exact Nat.eq_of_mul_eq_mul_left (by decide)
                (same.trans (Nat.mul_one pageSize).symm)
            · intro one
              rw [one, Nat.mul_one]
          simp only [Bool.false_eq_true, if_false, normal, nrPages]
          rw [← copiedWords_iff (Nat.two_pow_pos page.pageOrder)]
          constructor
          · rintro ⟨other, otherMapping, otherFound, _, otherExtracted, _, _,
              words⟩ number bound idx inside
            cases found.found.symm.trans otherFound
            cases extracted.symm.trans otherExtracted
            simp only [Bool.false_eq_true, if_false, nrPages, pfn] at words
            rw [← (words number bound).2 idx inside,
              copy.words rfl number bound idx inside]
          · intro words
            refine ⟨source, mapping, found.found, read.trans found.found,
              extracted, sameSize, sameProt, ?_⟩
            simp only [Bool.false_eq_true, if_false, nrPages, pfn]
            intro number bound
            refine ⟨copy.fresh rfl _ (mem_cluster.mpr
              ⟨Nat.le_add_right _ _, Nat.add_lt_add_left bound _⟩),
              fun idx inside => ?_⟩
            rw [copy.words rfl number bound idx inside,
              words number bound idx inside]
  | passed target source found isUnmanaged busy outside =>
      subst isUnmanaged
      have same :
          halPgtblExtract setup state.pgtbl.mem vaddr =
            halPgtblExtract setup before.mem vaddr :=
        halPgtblExtract_congr sound holding.sound (holding.others vaddr outside)
      constructor
      · rintro ⟨other, mapping, otherFound, _, extracted, size, prot, paddr⟩
          level levelSource levelFound
        cases levelFound.found.symm.trans otherFound
        exact .inr ⟨mapping, same.symm.trans extracted, size, prot, paddr⟩
      · intro copies
        obtain ⟨mapping, extracted, size, prot, paddr⟩ :=
          (copies target source found).resolve_left (not_not.mpr busy)
        exact ⟨source, mapping, found.found, read.trans found.found,
          same.trans extracted, size, prot, paddr⟩

/-! ## The call as a whole -/

/-- The mutexes that are taken are each released once, and not taken again. -/
structure ReleasedOnce (calls : List MutexCall) : Prop where
  taken : ∀ pgt, calls.count (.lock pgt) ≤ 1
  released : ∀ pgt, calls.count (.unlock pgt) = calls.count (.lock pgt)
  order :
    calls.Pairwise fun first second =>
      ∀ pgt, first = .unlock pgt → second ≠ .lock pgt

theorem releasedOnce_pair (pgt : Nat) :
    ReleasedOnce [.lock pgt, .unlock pgt] := by
  constructor
  · intro other
    simp only [List.count_cons, List.count_nil, beq_iff_eq]
    split_ifs <;> simp_all
  · intro other
    simp [List.count_cons]
  · simp

/-- The calls when both locks were taken, also when they are the same. -/
theorem releasedOnce_calls (destPgt srcPgt : Nat) :
    ReleasedOnce
      (.lock destPgt :: (if destPgt ≠ srcPgt then [.lock srcPgt] else []) ++
        .unlock srcPgt ::
          if destPgt ≠ srcPgt then [.unlock destPgt] else []) := by
  by_cases same : destPgt = srcPgt
  · subst same
    rw [if_neg (not_not.mpr rfl), if_neg (not_not.mpr rfl)]
    exact releasedOnce_pair destPgt
  · rw [if_pos same, if_pos same]
    constructor
    · intro pgt
      simp only [List.count_cons, List.count_append, List.count_nil, beq_iff_eq]
      split_ifs <;> simp_all
    · intro pgt
      simp [List.count_cons]
      omega
    · simp

section Call

variable {setups : Nat → PgtblSetup}
variable {locals : UnmapLocals}
variable {locked : Nat → Except Errno Unit}
variable {rounds destPgt srcPgt size : Nat}
variable {result : Except Errno Unit}
variable {calls : List MutexCall}

/-- One of the locks that the call takes is refused. -/
def LockRefused
    (locked : Nat → Except Errno Unit)
    (destPgt srcPgt : Nat) : Prop :=
  (∃ code, locked destPgt = .error code) ∨
    (destPgt ≠ srcPgt ∧ ∃ code, locked srcPgt = .error code)

variable
  (returned :
    vmCopyRange setups pool locals locked rounds state destPgt srcPgt vaddr
      flags size = some (result, after, calls))

include returned in
/-- What the call does when a lock is refused, and what when both are taken. -/
theorem vmCopyRange_cases :
    ReleasedOnce calls ∧
      (LockRefused locked destPgt srcPgt →
        after = state ∧ ∃ code, result = .error code) ∧
      (¬ LockRefused locked destPgt srcPgt →
        ∃ stop middle,
          vmCopyLoop (setups destPgt) (setups srcPgt) pool flags
              (pageRoundup ((vaddr + size) % addressSpace)) rounds
              (truncateAlign vaddr pageSize) state =
            some (result, stop, middle) ∧
          (result = .ok () → after = middle) ∧
          ∀ code,
            result = .error code →
              ∃ unmapResult,
                vmUnmapCommon (setups destPgt) locals rounds middle
                  (truncateAlign vaddr pageSize) flags
                  (stop - truncateAlign vaddr pageSize) true =
                    some (unmapResult, after)) := by
  unfold vmCopyRange at returned
  simp only at returned
  cases destLocked : locked destPgt with
  | error code =>
      rw [destLocked] at returned
      cases returned
      exact ⟨⟨fun _ => Nat.zero_le _, fun _ => rfl, .nil⟩,
        fun _ => ⟨rfl, _, rfl⟩,
        fun granted => absurd (.inl ⟨code, destLocked⟩) granted⟩
  | ok =>
      have refused_iff :
          LockRefused locked destPgt srcPgt ↔
            ∃ code,
              (if destPgt ≠ srcPgt then locked srcPgt else .ok ()) =
                Except.error code := by
        simp only [LockRefused, destLocked, reduceCtorEq, exists_false,
          false_or]
        split_ifs with different
        · exact and_iff_right different
        · exact ⟨fun both => absurd both.1 different, nofun⟩
      rw [destLocked] at returned
      simp only at returned
      cases taken : if destPgt ≠ srcPgt then locked srcPgt else .ok () with
      | error code =>
          have refused := refused_iff.mpr ⟨code, taken⟩
          have different : destPgt ≠ srcPgt := by
            intro same
            rw [if_neg (not_not.mpr same)] at taken
            cases taken
          rw [taken, if_pos different] at returned
          cases returned
          exact ⟨releasedOnce_pair destPgt, fun _ => ⟨rfl, _, rfl⟩,
            fun granted => absurd refused granted⟩
      | ok =>
          have granted : ¬ LockRefused locked destPgt srcPgt := by
            rw [refused_iff, taken]
            nofun
          rw [taken] at returned
          simp only at returned
          cases looped :
              vmCopyLoop (setups destPgt) (setups srcPgt) pool flags
                (pageRoundup ((vaddr + size) % addressSpace)) rounds
                (truncateAlign vaddr pageSize) state with
          | none =>
              rw [looped] at returned
              cases returned
          | some outcome =>
              obtain ⟨loopResult, stop, middle⟩ := outcome
              rw [looped] at returned
              cases loopResult with
              | ok =>
                  cases returned
                  exact ⟨releasedOnce_calls destPgt srcPgt,
                    fun refused => absurd refused granted,
                    fun _ => ⟨stop, _, rfl, fun _ => rfl, nofun⟩⟩
              | error code =>
                  simp only at returned
                  by_cases forward : stop ≥ truncateAlign vaddr pageSize
                  · rw [if_pos forward] at returned
                    obtain ⟨⟨unmapResult, final⟩, unmapped, same⟩ :=
                      Option.map_eq_some_iff.mp returned
                    cases same
                    exact ⟨releasedOnce_calls destPgt srcPgt,
                      fun refused => absurd refused granted,
                      fun _ => ⟨stop, middle, rfl, nofun,
                        fun _ _ => ⟨unmapResult, unmapped⟩⟩⟩
                  · rw [if_neg forward] at returned
                    cases returned

/--
The tables of the pages that the source maps in a range are all present in the
destination, or the destination maps nothing yet, and the pages lie in one
lowest table.
-/
inductive CopyReady
    (setup srcSetup : PgtblSetup)
    (before : PgtblState)
    (staVaddr endVaddr : Nat) : Prop where
  | present
      (walks :
        ∀ vaddr, staVaddr ≤ vaddr → vaddr < endVaddr →
          ∀ target source, SourceAt srcSetup before vaddr target source →
            ∃ table, tableAt setup before vaddr target = some table)
  | single
      (unmapped :
        ∀ vaddr, setup.OwnAddr vaddr →
          ∀ level entry, ¬ LeafAt setup before vaddr level entry)
      (together :
        ∀ first second,
          staVaddr ≤ first → first < endVaddr →
          staVaddr ≤ second → second < endVaddr →
            ∀ firstTarget firstSource secondTarget secondSource,
              SourceAt srcSetup before first firstTarget firstSource →
              SourceAt srcSetup before second secondTarget secondSource →
                firstTarget = secondTarget ∧
                  ∀ depth < firstTarget, digit first depth = digit second depth)

theorem CopyReady.tablesHeld
    {managed : Bool}
    {stop : Nat}
    (ready : CopyReady setup srcSetup before staVaddr endVaddr)
    (mapped : MappedTo setup before managed staVaddr 0 state pages stop)
    (origins :
      ∀ page ∈ pages, page.vaddr < endVaddr ∧
        ∃ source, SourceAt srcSetup before page.vaddr page.target source) :
    TablesHeld setup before state.pgtbl pages := by
  cases ready with
  | present walks =>
      refine .present (fun page member => ?_) mapped.grown.entries
      obtain ⟨upper, source, found⟩ := origins page member
      exact walks page.vaddr (mapped.bounds page member).1 upper page.target
        source found
  | single unmapped together =>
      refine .single unmapped fun first firstMember second secondMember => ?_
      obtain ⟨firstUpper, firstSource, firstFound⟩ := origins first firstMember
      obtain ⟨secondUpper, secondSource, secondFound⟩ :=
        origins second secondMember
      exact together first.vaddr second.vaddr
        (mapped.bounds first firstMember).1 firstUpper
        (mapped.bounds second secondMember).1 secondUpper _ _ _ _ firstFound
        secondFound

end Call

/-- Memory that holds some words, and is else cleared. -/
def memoryOf (words : List (Nat × Nat × Nat)) (frame idx : Nat) : Nat :=
  match words.find? fun word => word.1 = frame ∧ word.2.1 = idx with
  | some word => word.2.2
  | none => 0

/-- A new page table, and a source whose tables are other pages. -/
def twoTables (pgt : Nat) : PgtblSetup :=
  if pgt = 0 then bareSetup else { bareSetup with base := 100 }

/-- The new page table, with some free pages, in such a memory. -/
def copyState (free : List Nat) (words : List (Nat × Nat × Nat)) : VmState :=
  vmState { bareState free [] with mem := memoryOf words }

/-- A page of normal size at the address zero whose first word is set. -/
def smallWords : List (Nat × Nat × Nat) :=
  [(100, 0, tablePte (101 <<< pageShift)),
    (101, 0, tablePte (102 <<< pageShift)),
    (102, 0, leafPte 3 0 (103 <<< pageShift)), (103, 0, 7)]

/-- A page of 2 MiB at the address zero whose first word is set. -/
def largeWords : List (Nat × Nat × Nat) :=
  [(100, 0, tablePte (101 <<< pageShift)),
    (101, 0, leafPte 3 0 (1024 <<< pageShift)), (1024, 0, 7)]

/-- The rest of the kernel sets up the source. -/
theorem copyState_otherWork
    {free : List Nat}
    {words : List (Nat × Nat × Nat)}
    (new : NewPgtbl bareSetup (bareState free []))
    (apart : ∀ word ∈ words, word.1 ≠ 1) :
    OtherWork (bareState free []) (copyState free words).pgtbl :=
  { tables := rfl
    nrPages := rfl
    visited := rfl
    mem := by
      intro table known
      obtain rfl := List.mem_singleton.mp known
      funext idx
      have none :
          (words.find? fun word => word.1 = 1 ∧ word.2.1 = idx) = none :=
        List.find?_eq_none.mpr fun word member both =>
          apart word member (of_decide_eq_true both).1
      show memoryOf words 1 idx = 0
      rw [memoryOf, none]
    usecnt := fun _ _ => rfl
    freeNodup := new.tree.freeNodup
    freeFresh := new.tree.freeFresh }

/-- The free pages of the failing call: one table, and one cluster of 2 MiB. -/
def clusterFree : List Nat := 2 :: List.range' 512 512

/-- A pool that hands out the cluster of 2 MiB. -/
def clusterPool : PagePool :=
  { dequeue := fun free order =>
      if free = clusterFree ∧ order = 9 then some 512 else none
    dequeue_free := by
      intro free order pfn dequeued
      split_ifs at dequeued with fits
      obtain ⟨rfl, rfl⟩ := fits
      cases dequeued
      exact fun frame inside => List.mem_cons_of_mem 2 inside }

end RiscvWorkshop.Vm
