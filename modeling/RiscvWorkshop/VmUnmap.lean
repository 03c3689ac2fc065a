import Mathlib
import RiscvWorkshop.PageTableUnmap
import RiscvWorkshop.VmMapSteps

namespace RiscvWorkshop.Vm

open Pgtbl

/-!
# Unmapping a range with holes

`vm_unmap_common` and `release_process_segment` move their cursor by the size
of the page that was found last, and the lookup reports no size where nothing is
mapped.  The module says for which ranges the loops reach their end and unmap
the range, and nothing but the range.
-/

variable {setup : PgtblSetup}
variable {initial : PgtblState}
variable {actions : List PgtblAction}
variable {state middle after : VmState}
variable {locals : UnmapLocals}
variable {pfn users start stop : Nat}
variable {mapping : Mapping}
variable {unmanaged : Bool}

/-- The loop of `vm_unmap`; the first argument bounds the rounds. -/
def vmUnmapPages
    (setup : PgtblSetup)
    (locals : UnmapLocals)
    (flags endVaddr : Nat) :
    Nat → Nat → VmState → Option (Except Errno Unit × VmState)
  | 0, _, _ => none
  | rounds + 1, rmVaddr, state =>
      if endVaddr > rmVaddr then
        match halPgtblExtract setup state.pgtbl.mem rmVaddr with
        | .error code => some (.error code, state)
        | .ok mapping =>
            match vmUnmapCommon setup locals removeRounds state rmVaddr
                (mapping.flags ||| flags) mapping.pgsize false with
            | none => none
            | some (.error code, state) => some (.error code, state)
            | some (.ok (), state) =>
                vmUnmapPages setup locals flags endVaddr rounds
                  ((rmVaddr + mapping.pgsize) % addressSpace) state
      else
        some (.ok (), state)

/-- `vm_unmap`, with what the lock call on the mutex ends with. -/
def vmUnmap
    (setup : PgtblSetup)
    (locals : UnmapLocals)
    (locked : Except Errno Unit)
    (state : VmState)
    (vaddr flags size : Nat) : Option (Except Errno Unit × VmState) :=
  match locked with
  | .error code => some (.error code, state)
  | .ok () =>
      vmUnmapPages setup locals flags
        (pageRoundup ((vaddr + size) % addressSpace)) removeRounds
        (truncateAlign vaddr pageSize) state

/--
The loop of `release_process_segment`; the first argument bounds the rounds.
The local for the size of a page keeps its value when nothing is found.
-/
def releaseLoop
    (setup : PgtblSetup)
    (locals : UnmapLocals)
    (locked : Except Errno Unit)
    (flags endVaddr : Nat) :
    Nat → Nat → Nat → VmState → Option VmState
  | 0, _, _, _ => none
  | rounds + 1, rmPgsize, rmVaddr, state =>
      if endVaddr > rmVaddr then
        match halPgtblExtract setup state.pgtbl.mem rmVaddr with
        | .error _ =>
            releaseLoop setup locals locked flags endVaddr rounds rmPgsize
              ((rmVaddr + rmPgsize) % addressSpace) state
        | .ok mapping =>
            match vmUnmap setup locals locked state rmVaddr flags
                mapping.pgsize with
            | some (.ok (), state) =>
                releaseLoop setup locals locked flags endVaddr rounds
                  mapping.pgsize ((rmVaddr + mapping.pgsize) % addressSpace)
                  state
            | _ => none
      else
        some state

/-- `release_process_segment`; `rmPgsize` is what its local holds at first. -/
def releaseProcessSegment
    (setup : PgtblSetup)
    (locals : UnmapLocals)
    (rmPgsize : Nat)
    (locked : Except Errno Unit)
    (rounds : Nat)
    (state : VmState)
    (start stop flags : Nat) : Option VmState :=
  releaseLoop setup locals locked flags (pageRoundup stop) rounds rmPgsize
    (truncateAlign start pageSize) state

/-! ## Frames that pages share -/

/-- A frame whose cluster is in use, with a use count for a number of pages. -/
structure FrameBacked
    (setup : PgtblSetup)
    (state : VmState)
    (pfn users : Nat) : Prop where
  known : setup.isPfnValid pfn = true
  counted : (users : Int) ≤ state.pgtbl.usecnt pfn
  apart :
    ∀ frame ∈ cluster pfn (state.order pfn),
      frame ∉ state.pgtbl.tables ∧ frame ∉ state.pgtbl.free ∧ frame < 2 ^ 44
  tail :
    ∀ frame ∈ cluster pfn (state.order pfn),
      frame ≠ pfn → state.pgtbl.usecnt frame = 0

/-- The state after a frame has lost one of its users. -/
def VmState.dropUser (state : VmState) (pfn : Nat) : VmState :=
  { state with
    pgtbl :=
      { state.pgtbl with
        usecnt :=
          Function.update state.pgtbl.usecnt pfn
            (state.pgtbl.usecnt pfn - 1) } }

/-- What dropping one user of a frame does. -/
inductive UserDropped (state : VmState) (pfn : Nat) : VmState → Prop where
  | shared
      (others : 1 < state.pgtbl.usecnt pfn) :
      UserDropped state pfn (state.dropUser pfn)
  | last
      (only : state.pgtbl.usecnt pfn = 1) :
      UserDropped state pfn (state.returnCluster pfn (state.order pfn))

namespace FrameBacked

theorem head_apart
    (backed : FrameBacked setup state pfn users) :
    pfn ∉ state.pgtbl.tables ∧ pfn ∉ state.pgtbl.free ∧ pfn < 2 ^ 44 :=
  backed.apart pfn (head_mem_cluster pfn _)

/-- The only user of a cluster holds it. -/
theorem clusterHeld
    (backed : FrameBacked setup state pfn users)
    (only : state.pgtbl.usecnt pfn = 1) :
    ClusterHeld state pfn (state.order pfn) :=
  { usecnt := only
    sized := rfl
    apart := backed.apart
    tail := backed.tail }

/-- A user of a frame can be dropped. -/
theorem pfdbDecPageUseCount
    (backed : FrameBacked setup state pfn users)
    (used : 0 < users) :
    ∃ freed after,
      Vm.pfdbDecPageUseCount state pfn = some (freed, after) ∧
        UserDropped state pfn after := by
  have counted := backed.counted
  by_cases only : state.pgtbl.usecnt pfn = 1
  · exact ⟨true, _, (backed.clusterHeld only).pfdbDecPageUseCount,
      .last only⟩
  · refine ⟨false, _, ?_, .shared (by omega)⟩
    simp only [Vm.pfdbDecPageUseCount]
    rw [if_neg (by omega), if_neg (by omega)]
    rfl

/-- A frame with another user stays backed when one user is dropped. -/
theorem of_dropped_self
    (backed : FrameBacked setup state pfn (users + 1))
    (used : 0 < users)
    (dropped : UserDropped state pfn after) :
    FrameBacked setup after pfn users := by
  have counted := backed.counted
  push_cast at counted
  cases dropped with
  | shared others =>
      refine
        { known := backed.known
          counted := ?_
          apart := backed.apart
          tail := fun frame inside isTail => ?_ }
      · have fewer :
            (state.dropUser pfn).pgtbl.usecnt pfn =
              state.pgtbl.usecnt pfn - 1 :=
          Function.update_self ..
        omega
      · exact (Function.update_of_ne isTail ..).trans
          (backed.tail frame inside isTail)
  | last only =>
      omega

/-- Another frame stays backed when a user of a frame is dropped. -/
theorem of_dropped_other
    {other : Nat}
    (backed : FrameBacked setup state other users)
    (disjoint :
      (cluster other (state.order other)).Disjoint
        (cluster pfn (state.order pfn)))
    (dropped : UserDropped state pfn after) :
    FrameBacked setup after other users := by
  have different :
      ∀ frame ∈ cluster other (state.order other), frame ≠ pfn := by
    rintro frame inside rfl
    exact disjoint inside (head_mem_cluster frame _)
  have headDifferent := different other (head_mem_cluster other _)
  cases dropped with
  | shared =>
      exact
        { known := backed.known
          counted :=
            backed.counted.trans_eq
              (Function.update_of_ne headDifferent ..).symm
          apart := backed.apart
          tail := fun frame inside isTail =>
            (Function.update_of_ne (different frame inside) ..).trans
              (backed.tail frame inside isTail) }
  | last =>
      refine
        { known := backed.known
          counted :=
            backed.counted.trans_eq
              (Function.update_of_ne headDifferent ..).symm
          apart := ?_
          tail := fun frame inside isTail =>
            (Function.update_of_ne (different frame inside) ..).trans
              (backed.tail frame inside isTail) }
      intro frame inside
      obtain ⟨notTable, notFree, bound⟩ := backed.apart frame inside
      refine ⟨notTable, fun known => ?_, bound⟩
      rcases List.mem_append.mp known with older | returned
      · exact notFree older
      · exact disjoint inside returned

/-- Work of the page table code on its own frames keeps a frame backed. -/
theorem of_kept
    {pgtbl : PgtblState}
    (backed : FrameBacked setup state pfn users)
    (kept : FramesKept state.pgtbl pgtbl) :
    FrameBacked setup { state with pgtbl := pgtbl } pfn users := by
  have same :
      ∀ frame ∈ cluster pfn (state.order pfn),
        pgtbl.usecnt frame = state.pgtbl.usecnt frame :=
    fun frame inside =>
      let ⟨notTable, notFree, _⟩ := backed.apart frame inside
      kept.usecnt frame notTable notFree
  refine
    { known := backed.known
      counted := ?_
      apart := fun frame inside => ?_
      tail := fun frame inside isTail =>
        (same frame inside).trans (backed.tail frame inside isTail) }
  · rw [same pfn (head_mem_cluster pfn _)]
    exact backed.counted
  · obtain ⟨notTable, notFree, bound⟩ := backed.apart frame inside
    obtain ⟨stillNoTable, stillNotFree⟩ := kept.apart notTable notFree
    exact ⟨stillNoTable, stillNotFree, bound⟩

end FrameBacked

/-- Dropping a user of a backed frame is work on other pages. -/
theorem UserDropped.otherWork
    (dropped : UserDropped state pfn after)
    (backed : FrameBacked setup state pfn users)
    (sound : TreeSound setup state.pgtbl) :
    OtherWork state.pgtbl after.pgtbl := by
  cases dropped with
  | last only =>
      exact (backed.clusterHeld only).otherWork sound
  | shared others =>
      obtain ⟨notTable, notFree, _⟩ := backed.head_apart
      have other : ∀ {frame}, frame ≠ pfn →
          Function.update state.pgtbl.usecnt pfn
            (state.pgtbl.usecnt pfn - 1) frame = state.pgtbl.usecnt frame :=
        fun different => Function.update_of_ne different ..
      refine
        { tables := rfl
          nrPages := rfl
          visited := rfl
          mem := fun _ _ => rfl
          usecnt := fun table known => other ?_
          freeNodup := sound.freeNodup
          freeFresh := fun frame known => ?_ }
      · rintro rfl
        exact notTable known
      · obtain ⟨noTable, unused, bound⟩ := sound.freeFresh frame known
        refine ⟨noTable, ?_, bound⟩
        refine (other ?_).trans unused
        rintro rfl
        exact notFree known

theorem UserDropped.same
    (dropped : UserDropped state pfn after) :
    after.order = state.order ∧ after.pgtbl.mem = state.pgtbl.mem := by
  cases dropped <;> exact ⟨rfl, rfl⟩

/-! ## The pages of a range -/

/-- The addresses at which pages of a range start that map a frame. -/
def pageStarts
    (setup : PgtblSetup)
    (mem : Nat → Nat → Nat)
    (start stop pfn : Nat) : Set Nat :=
  {vaddr |
    start ≤ vaddr ∧ vaddr < stop ∧
      ∃ mapping,
        halPgtblExtract setup mem vaddr = .ok mapping ∧
          vaddr % mapping.pgsize = 0 ∧ mapping.frame = pfn}

/-- The frames of the pages of a range are backed, and their clusters apart. -/
structure RangeBacked
    (setup : PgtblSetup)
    (state : VmState)
    (start stop : Nat) : Prop where
  backed :
    ∀ pfn,
      (pageStarts setup state.pgtbl.mem start stop pfn).Nonempty →
        FrameBacked setup state pfn
          (pageStarts setup state.pgtbl.mem start stop pfn).ncard
  disjoint :
    ∀ pfn other,
      (pageStarts setup state.pgtbl.mem start stop pfn).Nonempty →
      (pageStarts setup state.pgtbl.mem start stop other).Nonempty →
      pfn ≠ other →
        (cluster pfn (state.order pfn)).Disjoint
          (cluster other (state.order other))

theorem pageStarts_finite
    (mem : Nat → Nat → Nat) :
    (pageStarts setup mem start stop pfn).Finite :=
  (Set.finite_Iio stop).subset fun _ both => both.2.1

theorem pageStarts_mono
    (mem : Nat → Nat → Nat)
    (size : Nat) :
    pageStarts setup mem (start + size) stop pfn ⊆
      pageStarts setup mem start stop pfn :=
  fun _ ⟨lower, upper, page⟩ =>
    ⟨(Nat.le_add_right _ _).trans lower, upper, page⟩

/-- Behind the first page there is one page less. -/
theorem ncard_pageStarts_next
    {mem : Nat → Nat → Nat}
    {size : Nat}
    (first : start ∈ pageStarts setup mem start stop pfn)
    (positive : 0 < size) :
    (pageStarts setup mem (start + size) stop pfn).ncard + 1 ≤
      (pageStarts setup mem start stop pfn).ncard := by
  have behind : start ∉ pageStarts setup mem (start + size) stop pfn :=
    fun both => absurd both.1 (by omega)
  rw [← Set.ncard_insert_of_notMem behind (pageStarts_finite mem)]
  exact Set.ncard_le_ncard
    (Set.insert_subset first (pageStarts_mono mem size))
    (pageStarts_finite mem)

/-- Where the reader finds the same, the same pages start. -/
theorem pageStarts_congr
    {mem next : Nat → Nat → Nat}
    (same :
      ∀ vaddr, start ≤ vaddr → vaddr < stop →
        halPgtblExtract setup next vaddr = halPgtblExtract setup mem vaddr) :
    pageStarts setup next start stop pfn =
      pageStarts setup mem start stop pfn := by
  ext vaddr
  constructor
  · rintro ⟨lower, upper, page⟩
    rw [same vaddr lower upper] at page
    exact ⟨lower, upper, page⟩
  · rintro ⟨lower, upper, page⟩
    rw [← same vaddr lower upper] at page
    exact ⟨lower, upper, page⟩

/-- A frame that is backed for some pages is backed for fewer. -/
theorem FrameBacked.mono
    {fewer : Nat}
    (backed : FrameBacked setup state pfn users)
    (bound : fewer ≤ users) :
    FrameBacked setup state pfn fewer :=
  { backed with
    counted := (Int.ofNat_le.mpr bound).trans backed.counted }

namespace RangeBacked

/-- Dropping the frame of the first page keeps the later pages backed. -/
theorem of_dropped
    {size : Nat}
    (backed : RangeBacked setup state start stop)
    (first : start ∈ pageStarts setup state.pgtbl.mem start stop pfn)
    (positive : 0 < size)
    (dropped : UserDropped state pfn after) :
    RangeBacked setup after (start + size) stop := by
  obtain ⟨sameOrder, sameMem⟩ := dropped.same
  have before :
      ∀ {other},
        (pageStarts setup state.pgtbl.mem (start + size) stop
          other).Nonempty →
        (pageStarts setup state.pgtbl.mem start stop other).Nonempty :=
    fun later => later.mono (pageStarts_mono _ size)
  refine
    { backed := fun other later => ?_
      disjoint := fun other third later thirdLater different => ?_ }
  · rw [sameMem] at later ⊢
    by_cases same : other = pfn
    · subst same
      refine FrameBacked.of_dropped_self
        ((backed.backed other (before later)).mono
          (ncard_pageStarts_next first positive)) ?_ dropped
      exact (Set.ncard_pos (pageStarts_finite _)).mpr later
    · refine FrameBacked.of_dropped_other
        ((backed.backed other (before later)).mono
          (Set.ncard_le_ncard (pageStarts_mono _ size)
            (pageStarts_finite _))) ?_ dropped
      exact backed.disjoint other pfn (before later) ⟨start, first⟩ same
  · rw [sameMem] at later thirdLater
    rw [sameOrder]
    exact backed.disjoint other third (before later) (before thirdLater)
      different

/-- Work of the page table code on its own frames keeps a range backed. -/
theorem of_kept
    {pgtbl : PgtblState}
    (backed : RangeBacked setup state start stop)
    (kept : FramesKept state.pgtbl pgtbl)
    (same :
      ∀ vaddr, start ≤ vaddr → vaddr < stop →
        halPgtblExtract setup pgtbl.mem vaddr =
          halPgtblExtract setup state.pgtbl.mem vaddr) :
    RangeBacked setup { state with pgtbl := pgtbl } start stop := by
  refine
    { backed := fun pfn pages => ?_
      disjoint := fun pfn other pages otherPages different => ?_ }
  · rw [pageStarts_congr same] at pages ⊢
    exact (backed.backed pfn pages).of_kept kept
  · rw [pageStarts_congr same] at pages otherPages
    exact backed.disjoint pfn other pages otherPages different

end RangeBacked

/-- What unmapping the first page of a range does. -/
structure PageUnmapped
    (setup : PgtblSetup)
    (unmanaged : Bool)
    (start stop : Nat)
    (mapping : Mapping)
    (before after : VmState) : Prop where
  sound : TreeSound setup after.pgtbl
  known : TablesKnown setup after.pgtbl
  unmapped :
    ∀ vaddr, InPage start mapping.pgsize vaddr →
      halPgtblExtract setup after.pgtbl.mem vaddr = .error .enoent
  others :
    ∀ vaddr, InSv39 vaddr → ¬ InPage start mapping.pgsize vaddr →
      halPgtblExtract setup after.pgtbl.mem vaddr =
        halPgtblExtract setup before.pgtbl.mem vaddr
  backed :
    unmanaged = false →
      RangeBacked setup after (start + mapping.pgsize) stop

/-- Dropping the frame of a managed page goes on. -/
theorem dropMapped_of_backed
    (sound : TreeSound setup state.pgtbl)
    (extracted :
      halPgtblExtract setup state.pgtbl.mem start = .ok mapping)
    (isAligned : start % mapping.pgsize = 0)
    (positive : 0 < mapping.pgsize)
    (more : start < stop)
    (backed : unmanaged = false → RangeBacked setup state start stop) :
    ∃ middle,
      dropMapped setup state unmanaged (.ok mapping) = some middle ∧
        OtherWork state.pgtbl middle.pgtbl ∧
        middle.pgtbl.mem = state.pgtbl.mem ∧
        (unmanaged = false →
          RangeBacked setup middle (start + mapping.pgsize) stop) := by
  cases unmanaged with
  | true =>
      exact ⟨state, rfl, OtherWork.refl sound, rfl, nofun⟩
  | false =>
      have rangeBacked := backed rfl
      have first :
          start ∈
            pageStarts setup state.pgtbl.mem start stop mapping.frame :=
        ⟨le_rfl, more, mapping, extracted, isAligned, rfl⟩
      have frameBacked := rangeBacked.backed mapping.frame ⟨start, first⟩
      obtain ⟨freed, middle, counted, dropped⟩ :=
        frameBacked.pfdbDecPageUseCount
          ((Set.ncard_pos (pageStarts_finite _)).mpr ⟨start, first⟩)
      have known := frameBacked.known
      refine ⟨middle, ?_, dropped.otherWork frameBacked sound,
        dropped.same.2,
        fun _ => rangeBacked.of_dropped first positive dropped⟩
      rw [Mapping.frame] at known counted
      simp only [dropMapped, Bool.false_eq_true, if_false, known, if_true,
        counted, Option.map_some]

/-- A round of `hal_pgtbl_remove` at the first page of a range unmaps it. -/
theorem unmapPage_of_mapped
    (sound : TreeSound setup state.pgtbl)
    (known : TablesKnown setup state.pgtbl)
    (own : setup.OwnAddr start)
    (translated : ∀ vaddr, start ≤ vaddr → vaddr < stop → InSv39 vaddr)
    (extracted :
      halPgtblExtract setup state.pgtbl.mem start = .ok mapping)
    (isAligned : start % mapping.pgsize = 0)
    (more : start < stop)
    (backed : unmanaged = false → RangeBacked setup state start stop) :
    ∃ after,
      unmapPage setup state unmanaged start = some after ∧
        PageUnmapped setup unmanaged start stop mapping state after := by
  have inSv39 := translated start le_rfl more
  obtain ⟨level, entry, leaf, size⟩ :=
    leafAt_of_halPgtblExtract sound extracted
  have pgsize : mapping.pgsize = targetSize level := by
    rw [size]
    rfl
  have levelBound : level ≤ 2 := by
    obtain ⟨⟨table, walk, _⟩, _⟩ := leaf
    exact Nat.lt_succ_iff.mp (sound.depth_lt walk)
  have positive := targetSize_pos level
  obtain ⟨middle, dropped, work, sameMem, later⟩ :=
    dropMapped_of_backed sound extracted isAligned (pgsize ▸ positive) more
      backed
  obtain ⟨pgtbl, removed, cleared⟩ :=
    removeTableReference_of_leafAt (work.treeSound sound)
      (work.tablesKnown known) own
      ⟨(work.entryAt sound).mpr leaf.1, leaf.2⟩
  have leaves := cleared.leaves.of_otherWork sound work
  have found := leaves.extract sound cleared.sound
  rw [pgsize] at isAligned later
  have inPage :
      ∀ {other}, InSv39 other →
        (SameEntry level other start ↔
          InPage start (targetSize level) other) :=
    sameEntry_iff_inPage levelBound inSv39 isAligned
  refine ⟨{ middle with pgtbl := pgtbl }, ?_,
    { sound := cleared.sound
      known := cleared.known
      unmapped := ?_
      others := ?_
      backed := ?_ }⟩
  · rw [unmapPage, extracted, dropped]
    simp only [removed, Option.map_some]
  · rw [pgsize]
    intro vaddr inside
    have vaddrIn := inSv39_of_inPage levelBound inSv39 isAligned inside
    exact (found vaddr).1 ((inPage vaddrIn).mpr inside)
  · rw [pgsize]
    intro vaddr vaddrIn outside
    exact (found vaddr).2 fun same => outside ((inPage vaddrIn).mp same)
  · rw [pgsize]
    intro managed
    refine (later managed).of_kept cleared.kept fun vaddr lower upper => ?_
    rw [sameMem]
    refine (found vaddr).2 fun same => ?_
    have inside := (inPage (translated vaddr (by omega) upper)).mp same
    exact absurd inside.2 (not_lt.mpr lower)

/-! ## The loops at a mapped page -/

/-- The attributes of a mapping never say that it is unmanaged. -/
theorem flags_or_mapping
    (flags pte lvl : Nat) :
    (flags ||| (mappingOf pte lvl).flags) &&& vmFlagsUnmanaged =
      flags &&& vmFlagsUnmanaged := by
  have apart : (mappingOf pte lvl).flags &&& vmFlagsUnmanaged = 0 := by
    simp only [mappingOf, pteToVmprotAndVmflags]
    split_ifs <;> decide
  rw [Nat.and_or_distrib_right, apart, Nat.or_zero]

/-- An aligned page inside the address space, as the cursors see it. -/
structure PageInside
    (setup : PgtblSetup)
    (state : VmState)
    (start : Nat)
    (mapping : Mapping) : Prop where
  extracted : halPgtblExtract setup state.pgtbl.mem start = .ok mapping
  startAligned : pageSize ∣ start
  stopAligned : pageSize ∣ start + mapping.pgsize
  positive : 0 < mapping.pgsize
  inSpace : start + mapping.pgsize < addressSpace
  attributes :
    ∀ flags,
      (flags ||| mapping.flags) &&& vmFlagsUnmanaged =
        flags &&& vmFlagsUnmanaged

theorem pageInside_of_extract
    (sound : TreeSound setup state.pgtbl)
    (extracted :
      halPgtblExtract setup state.pgtbl.mem start = .ok mapping)
    (isAligned : start % mapping.pgsize = 0)
    (inSpace : start + mapping.pgsize < addressSpace) :
    PageInside setup state start mapping := by
  obtain ⟨level, bound, size⟩ := pgsize_of_extract sound extracted
  have small := pageSize_dvd_targetSize bound
  rw [← size] at small
  have startAligned := small.trans (Nat.dvd_of_mod_eq_zero isAligned)
  obtain ⟨_, entry, _, rfl⟩ := leafAt_of_halPgtblExtract sound extracted
  exact
    { extracted := extracted
      startAligned := startAligned
      stopAligned := Nat.dvd_add startAligned small
      positive := size ▸ targetSize_pos level
      inSpace := inSpace
      attributes := fun flags => flags_or_mapping flags entry _ }

theorem truncateAlign_of_dvd
    {address size : Nat}
    (whole : size ∣ address) :
    truncateAlign address size = address :=
  Nat.div_mul_cancel whole

theorem pageRoundup_of_dvd
    {address : Nat}
    (whole : pageSize ∣ address)
    (inSpace : address < addressSpace) :
    pageRoundup address = address := by
  obtain ⟨pages, rfl⟩ := whole
  rw [show pageSize = 4096 from rfl, show addressSpace = 2 ^ 64 from rfl]
    at inSpace
  rw [pageRoundup, truncateAlign, show pageSize = 4096 from rfl,
    show addressSpace = 2 ^ 64 from rfl, Nat.mod_eq_of_lt (by omega)]
  omega

namespace PageInside

variable {flags : Nat}

/-- `hal_pgtbl_remove` on a mapped page is one round. -/
theorem vmPgtblRemove
    (page : PageInside setup state start mapping) :
    Vm.vmPgtblRemove setup state start flags mapping.pgsize =
      unmapPage setup state (flags &&& vmFlagsUnmanaged != 0) start := by
  have positive := page.positive
  have next := Nat.mod_eq_of_lt page.inSpace
  have startAligned : aligned start pageSize = true := by
    rw [aligned, beq_iff_eq]
    exact Nat.mod_eq_zero_of_dvd page.startAligned
  have stopAligned : aligned (start + mapping.pgsize) pageSize = true := by
    rw [aligned, beq_iff_eq]
    exact Nat.mod_eq_zero_of_dvd page.stopAligned
  obtain ⟨rounds, enough⟩ : ∃ rounds, removeRounds = rounds + 2 :=
    ⟨2 ^ 52 - 1, by decide⟩
  rw [Vm.vmPgtblRemove]
  simp only [next, startAligned, stopAligned, Bool.and_self, if_true, enough]
  rw [unmapLoop, if_pos (by omega)]
  cases removed :
      unmapPage setup state (flags &&& vmFlagsUnmanaged != 0) start with
  | none =>
      rfl
  | some after =>
      simp only [page.extracted, pgsizeAfter, next]
      rw [unmapLoop, if_neg (lt_irrefl _)]

/-- A round of `vm_unmap_common` unmaps a page and goes on behind it. -/
theorem vmUnmapLoop
    {endVaddr rounds mapFlags mapPgsize : Nat}
    {force : Bool}
    (page : PageInside setup state start mapping)
    (more : start < endVaddr)
    (removed :
      unmapPage setup state (flags &&& vmFlagsUnmanaged != 0) start =
        some middle) :
    Vm.vmUnmapLoop setup flags force endVaddr (rounds + 1) mapFlags mapPgsize
        start state =
      Vm.vmUnmapLoop setup flags force endVaddr rounds mapping.flags
        mapping.pgsize (start + mapping.pgsize) middle := by
  have single :
      Vm.vmPgtblRemove setup state start (flags ||| mapping.flags)
        mapping.pgsize = some middle := by
    rw [page.vmPgtblRemove, page.attributes, removed]
  rw [Vm.vmUnmapLoop, if_pos more]
  simp only [page.extracted, single, Nat.mod_eq_of_lt page.inSpace]

/-- `vm_unmap` on a mapped page unmaps it. -/
theorem vmUnmap
    (page : PageInside setup state start mapping)
    (removed :
      unmapPage setup state (flags &&& vmFlagsUnmanaged != 0) start =
        some middle) :
    Vm.vmUnmap setup locals (.ok ()) state start flags mapping.pgsize =
      some (.ok (), middle) := by
  have positive := page.positive
  have next := Nat.mod_eq_of_lt page.inSpace
  have roundup := pageRoundup_of_dvd page.stopAligned page.inSpace
  have truncate := truncateAlign_of_dvd page.startAligned
  obtain ⟨rounds, enough⟩ : ∃ rounds, removeRounds = rounds + 2 :=
    ⟨2 ^ 52 - 1, by decide⟩
  have asked :
      (mapping.flags ||| flags) &&& vmFlagsUnmanaged =
        flags &&& vmFlagsUnmanaged := by
    rw [Nat.or_comm, page.attributes]
  have common :
      vmUnmapCommon setup locals removeRounds state start
        (mapping.flags ||| flags) mapping.pgsize false =
          some (.ok (), middle) := by
    rw [vmUnmapCommon, next, roundup, truncate, enough,
      page.vmUnmapLoop (by omega) (asked ▸ removed), Vm.vmUnmapLoop,
      if_neg (lt_irrefl _)]
  simp only [Vm.vmUnmap, next, roundup, truncate]
  rw [enough, vmUnmapPages, if_pos (by omega)]
  simp only [page.extracted, common, next]
  rw [vmUnmapPages, if_neg (lt_irrefl _)]

end PageInside

/-! ## Ranges that the loops go through -/

/-- A range is unmapped, and nothing but the range. -/
structure RangeUnmapped
    (setup : PgtblSetup)
    (start stop : Nat)
    (before after : VmState) : Prop where
  unmapped :
    ∀ vaddr, start ≤ vaddr → vaddr < stop →
      halPgtblExtract setup after.pgtbl.mem vaddr = .error .enoent
  others :
    ∀ vaddr, InSv39 vaddr → ¬ (start ≤ vaddr ∧ vaddr < stop) →
      halPgtblExtract setup after.pgtbl.mem vaddr =
        halPgtblExtract setup before.pgtbl.mem vaddr

theorem RangeUnmapped.refl
    (finished : stop ≤ start) :
    RangeUnmapped setup start stop state state :=
  { unmapped := fun vaddr lower upper => by omega
    others := fun _ _ _ => rfl }

/-- What the loops need of the range that is left. -/
structure UnmapReady
    (setup : PgtblSetup)
    (unmanaged : Bool)
    (start stop : Nat)
    (state : VmState) : Prop where
  sound : TreeSound setup state.pgtbl
  known : TablesKnown setup state.pgtbl
  own : ∀ vaddr, start ≤ vaddr → vaddr < stop → setup.OwnAddr vaddr
  translated : ∀ vaddr, start ≤ vaddr → vaddr < stop → InSv39 vaddr
  backed : unmanaged = false → RangeBacked setup state start stop

/--
The pages of a range as the cursor of `release_process_segment` meets them:
each lies in the range, and each step over a hole, by the size of the page met
last, passes no mapped address.
-/
inductive Swept
    (setup : PgtblSetup)
    (mem : Nat → Nat → Nat)
    (stop : Nat) :
    Option Nat → Nat → Prop where
  | done
      {last : Option Nat}
      {start : Nat}
      (finished : stop ≤ start) :
      Swept setup mem stop last start
  | page
      {last : Option Nat}
      {start : Nat}
      {mapping : Mapping}
      (more : start < stop)
      (extracted : halPgtblExtract setup mem start = .ok mapping)
      (isAligned : start % mapping.pgsize = 0)
      (inside : start + mapping.pgsize ≤ stop)
      (later :
        Swept setup mem stop (some mapping.pgsize) (start + mapping.pgsize)) :
      Swept setup mem stop last start
  | hole
      {step start : Nat}
      (more : start < stop)
      (positive : 0 < step)
      (inSpace : start + step < addressSpace)
      (unmapped :
        ∀ vaddr, start ≤ vaddr → vaddr < start + step → vaddr < stop →
          halPgtblExtract setup mem vaddr = .error .enoent)
      (later : Swept setup mem stop (some step) (start + step)) :
      Swept setup mem stop (some step) start

/-- What lies behind the first page of a range is found as before. -/
theorem PageUnmapped.behind
    (first : PageUnmapped setup unmanaged start stop mapping state middle)
    (translated : ∀ vaddr, start ≤ vaddr → vaddr < stop → InSv39 vaddr) :
    ∀ vaddr, start + mapping.pgsize ≤ vaddr → vaddr < stop →
      halPgtblExtract setup middle.pgtbl.mem vaddr =
        halPgtblExtract setup state.pgtbl.mem vaddr :=
  fun vaddr lower upper =>
    first.others vaddr (translated vaddr (by omega) upper)
      fun inside => absurd inside.2 (not_lt.mpr lower)

namespace UnmapReady

/-- Unmapping the first page leaves the rest of the range ready. -/
theorem next
    (ready : UnmapReady setup unmanaged start stop state)
    (first : PageUnmapped setup unmanaged start stop mapping state middle) :
    UnmapReady setup unmanaged (start + mapping.pgsize) stop middle :=
  { sound := first.sound
    known := first.known
    own := fun vaddr lower upper => ready.own vaddr (by omega) upper
    translated := fun vaddr lower upper =>
      ready.translated vaddr (by omega) upper
    backed := first.backed }

/-- A part of a range is as ready as the range. -/
theorem skip
    (ready : UnmapReady setup unmanaged start stop state)
    (step : Nat) :
    UnmapReady setup unmanaged (start + step) stop state := by
  have before :
      ∀ {pfn},
        (pageStarts setup state.pgtbl.mem (start + step) stop
          pfn).Nonempty →
        (pageStarts setup state.pgtbl.mem start stop pfn).Nonempty :=
    fun later => later.mono (pageStarts_mono _ step)
  exact
    { sound := ready.sound
      known := ready.known
      own := fun vaddr lower upper => ready.own vaddr (by omega) upper
      translated := fun vaddr lower upper =>
        ready.translated vaddr (by omega) upper
      backed := fun managed =>
        { backed := fun pfn later =>
            ((ready.backed managed).backed pfn (before later)).mono
              (Set.ncard_le_ncard (pageStarts_mono _ step)
                (pageStarts_finite _))
          disjoint := fun pfn other later otherLater =>
            (ready.backed managed).disjoint pfn other (before later)
              (before otherLater) } }

/-- The page at the start of a range can be unmapped. -/
theorem unmapPage
    (ready : UnmapReady setup unmanaged start stop state)
    (extracted :
      halPgtblExtract setup state.pgtbl.mem start = .ok mapping)
    (isAligned : start % mapping.pgsize = 0)
    (more : start < stop) :
    ∃ middle,
      Vm.unmapPage setup state unmanaged start = some middle ∧
        PageUnmapped setup unmanaged start stop mapping state middle :=
  unmapPage_of_mapped ready.sound ready.known (ready.own start le_rfl more)
    ready.translated extracted isAligned more ready.backed

end UnmapReady

/-- Behind a first page that is unmapped, the rest unmaps the range. -/
theorem RangeUnmapped.cons
    (first : PageUnmapped setup unmanaged start stop mapping state middle)
    (translated : ∀ vaddr, start ≤ vaddr → vaddr < stop → InSv39 vaddr)
    (inside : start + mapping.pgsize ≤ stop)
    (later :
      RangeUnmapped setup (start + mapping.pgsize) stop middle after) :
    RangeUnmapped setup start stop state after := by
  refine
    { unmapped := fun vaddr lower upper => ?_
      others := fun vaddr vaddrIn outside => ?_ }
  · by_cases here : vaddr < start + mapping.pgsize
    · rw [later.others vaddr (translated vaddr lower upper)
        fun both => by omega]
      exact first.unmapped vaddr ⟨lower, here⟩
    · exact later.unmapped vaddr (not_lt.mp here) upper
  · rw [later.others vaddr vaddrIn fun both => outside ⟨by omega, both.2⟩]
    exact first.others vaddr vaddrIn fun both =>
      outside ⟨both.1, lt_of_lt_of_le both.2 inside⟩

/-- Behind a hole, the rest unmaps the range. -/
theorem RangeUnmapped.skip
    {step : Nat}
    (translated : ∀ vaddr, start ≤ vaddr → vaddr < stop → InSv39 vaddr)
    (unmapped :
      ∀ vaddr, start ≤ vaddr → vaddr < start + step → vaddr < stop →
        halPgtblExtract setup state.pgtbl.mem vaddr = .error .enoent)
    (later : RangeUnmapped setup (start + step) stop state after) :
    RangeUnmapped setup start stop state after := by
  refine
    { unmapped := fun vaddr lower upper => ?_
      others := fun vaddr vaddrIn outside =>
        later.others vaddr vaddrIn fun both => outside ⟨by omega, both.2⟩ }
  by_cases here : vaddr < start + step
  · rw [later.others vaddr (translated vaddr lower upper)
      fun both => by omega]
    exact unmapped vaddr lower here upper
  · exact later.unmapped vaddr (not_lt.mp here) upper

/-! ## The loops reach their end -/

/-- On whole pages the loop of `vm_unmap_common` unmaps the range. -/
theorem vmUnmapLoop_of_wholePages
    {flags mapFlags mapPgsize : Nat}
    {force : Bool}
    {pages : List Mapping}
    (ready :
      UnmapReady setup (flags &&& vmFlagsUnmanaged != 0) start stop state)
    (inSpace : stop < addressSpace)
    (whole : WholePages setup state.pgtbl.mem start pages stop) :
    ∃ after,
      vmUnmapLoop setup flags force stop (pages.length + 1) mapFlags mapPgsize
          start state = some (.ok (), after) ∧
        RangeUnmapped setup start stop state after := by
  induction pages generalizing start mapFlags mapPgsize state with
  | nil =>
      obtain rfl : start = stop := whole
      refine ⟨state, ?_, RangeUnmapped.refl le_rfl⟩
      rw [vmUnmapLoop, if_neg (lt_irrefl start)]
  | cons mapping pages inductionHypothesis =>
      obtain ⟨extracted, _, isAligned, later⟩ := whole
      have inside := later.le ready.sound
      have page :=
        pageInside_of_extract ready.sound extracted isAligned (by omega)
      have positive := page.positive
      obtain ⟨middle, removed, first⟩ :=
        ready.unmapPage extracted isAligned (by omega)
      have rest : WholePages setup middle.pgtbl.mem
          (start + mapping.pgsize) pages stop := by
        refine later.congr fun vaddr vaddrIn lower => ?_
        exact first.others vaddr vaddrIn fun both =>
          absurd both.2 (not_lt.mpr lower)
      obtain ⟨after, looped, range⟩ :=
        inductionHypothesis (ready.next first) rest
      exact ⟨after, (page.vmUnmapLoop (by omega) removed).trans looped,
        RangeUnmapped.cons first ready.translated inside range⟩

/-- On a swept range the loop of `release_process_segment` unmaps the range. -/
theorem releaseLoop_of_swept
    {mem : Nat → Nat → Nat}
    {flags rmPgsize : Nat}
    {last : Option Nat}
    (swept : Swept setup mem stop last start)
    (same :
      ∀ vaddr, start ≤ vaddr → vaddr < stop →
        halPgtblExtract setup state.pgtbl.mem vaddr =
          halPgtblExtract setup mem vaddr)
    (ready :
      UnmapReady setup (flags &&& vmFlagsUnmanaged != 0) start stop state)
    (inSpace : stop < addressSpace)
    (kept : ∀ step, last = some step → rmPgsize = step) :
    ∃ rounds after,
      releaseLoop setup locals (.ok ()) flags stop rounds rmPgsize start
          state = some after ∧
        RangeUnmapped setup start stop state after := by
  induction swept generalizing state rmPgsize with
  | done finished =>
      refine ⟨1, state, ?_, RangeUnmapped.refl finished⟩
      rw [releaseLoop, if_neg (not_lt.mpr finished)]
  | @page last start mapping more extracted isAligned inside later
      inductionHypothesis =>
      rw [← same start le_rfl more] at extracted
      have page :=
        pageInside_of_extract ready.sound extracted isAligned (by omega)
      obtain ⟨middle, removed, first⟩ :=
        ready.unmapPage extracted isAligned more
      have behind := first.behind ready.translated
      have stillSame :
          ∀ vaddr, start + mapping.pgsize ≤ vaddr → vaddr < stop →
            halPgtblExtract setup middle.pgtbl.mem vaddr =
              halPgtblExtract setup mem vaddr :=
        fun vaddr lower upper =>
          (behind vaddr lower upper).trans (same vaddr (by omega) upper)
      obtain ⟨rounds, after, looped, range⟩ :=
        inductionHypothesis stillSame (ready.next first)
          fun step isLast => Option.some.inj isLast
      refine ⟨rounds + 1, after, ?_,
        RangeUnmapped.cons first ready.translated inside range⟩
      rw [releaseLoop, if_pos more]
      simp only [extracted, page.vmUnmap removed,
        Nat.mod_eq_of_lt page.inSpace]
      exact looped
  | @hole step start more positive roomy unmapped later inductionHypothesis =>
      have nothing :
          ∀ vaddr, start ≤ vaddr → vaddr < start + step → vaddr < stop →
            halPgtblExtract setup state.pgtbl.mem vaddr =
              .error .enoent :=
        fun vaddr lower below upper =>
          (same vaddr lower upper).trans (unmapped vaddr lower below upper)
      obtain ⟨rounds, after, looped, range⟩ :=
        inductionHypothesis
          (fun vaddr lower upper => same vaddr (by omega) upper)
          (ready.skip step) kept
      refine ⟨rounds + 1, after, ?_,
        RangeUnmapped.skip ready.translated nothing range⟩
      have hole := nothing start le_rfl (by omega) more
      obtain rfl := kept step rfl
      rw [releaseLoop, if_pos more]
      simp only [hole, Nat.mod_eq_of_lt roomy]
      exact looped

/-! ## The other ranges -/

/-- The size of a mapping says on which level the reader found it. -/
theorem extractLoop_level
    {mem : Nat → Nat → Nat}
    {vaddr lvl table : Nat}
    (extracted : extractLoop mem vaddr lvl table = .ok mapping) :
    ∃ level < lvl, mapping.pgsize = pgtblCalcPagesize level := by
  induction lvl generalizing table with
  | zero =>
      cases extracted
  | succ lvl inductionHypothesis =>
      rw [extractLoop] at extracted
      cases found : walkPgtbl mem table lvl vaddr with
      | unmapped =>
          rw [found] at extracted
          cases extracted
      | mapped reported =>
          rw [found] at extracted
          cases extracted
          refine ⟨lvl, Nat.lt_succ_self lvl, ?_⟩
          rw [walkPgtbl] at found
          split_ifs at found
          cases found
          rfl
      | next below =>
          rw [found] at extracted
          obtain ⟨level, bound, size⟩ := inductionHypothesis extracted
          exact ⟨level, Nat.lt_succ_of_lt bound, size⟩

/-- The reader finds a page at each address that selects its entry. -/
theorem extractLoop_sameEntry
    {mem : Nat → Nat → Nat}
    {vaddr other level lvl table : Nat}
    (extracted : extractLoop mem vaddr lvl table = .ok mapping)
    (size : mapping.pgsize = pgtblCalcPagesize level)
    (same :
      ∀ higher, level ≤ higher → higher < pgtblLvlNr →
        pgtblCalcIndexVal other higher = pgtblCalcIndexVal vaddr higher)
    (bound : lvl ≤ pgtblLvlNr) :
    extractLoop mem other lvl table = .ok mapping := by
  have levelNr : pgtblLvlNr = 3 := rfl
  induction lvl generalizing table with
  | zero =>
      cases extracted
  | succ lvl inductionHypothesis =>
      -- the page was found on its level, so the walk does not go below it
      have above : level ≤ lvl := by
        obtain ⟨found, foundBound, foundSize⟩ := extractLoop_level extracted
        have sizes := size.symm.trans foundSize
        by_contra below
        have lower : found < level := by omega
        simp only [pgtblCalcPagesize, pgtblIndexShift, levelNr,
          Nat.one_shiftLeft] at sizes
        have exponents := Nat.pow_right_injective le_rfl sizes
        omega
      have walk :
          walkPgtbl mem table lvl other = walkPgtbl mem table lvl vaddr := by
        rw [walkPgtbl, walkPgtbl, same lvl above (by omega)]
      rw [extractLoop] at extracted ⊢
      rw [walk]
      cases found : walkPgtbl mem table lvl vaddr with
      | unmapped =>
          rw [found] at extracted
          cases extracted
      | mapped reported =>
          rw [found] at extracted
          exact extracted
      | next below =>
          rw [found] at extracted
          exact inductionHypothesis extracted (by omega)

theorem extract_of_sameEntry
    {mem : Nat → Nat → Nat}
    {vaddr other level : Nat}
    (extracted : halPgtblExtract setup mem vaddr = .ok mapping)
    (size : mapping.pgsize = targetSize level)
    (bound : level ≤ 2)
    (same : SameEntry level other vaddr) :
    halPgtblExtract setup mem other = .ok mapping := by
  refine extractLoop_sameEntry extracted size (fun higher lower upper => ?_)
    le_rfl
  have levelNr : pgtblLvlNr = 3 := rfl
  have digits := same (2 - higher) (by omega)
  rwa [digit, digit, show 2 - (2 - higher) = higher by omega] at digits

/-- The other addresses of a page in Sv39 lie in Sv39. -/
theorem inSv39_of_samePage
    {vaddr other level : Nat}
    (bound : level ≤ 2)
    (inSv39 : InSv39 vaddr)
    (same : other / targetSize level = vaddr / targetSize level) :
    InSv39 other := by
  unfold InSv39 at *
  interval_cases level
  · rw [show targetSize 0 = 2 ^ 30 by decide] at same
    omega
  · rw [show targetSize 1 = 2 ^ 21 by decide] at same
    omega
  · rw [show targetSize 2 = 2 ^ 12 by decide] at same
    omega

/-- The pages that a range meets lie in the range. -/
def PagesInside
    (setup : PgtblSetup)
    (mem : Nat → Nat → Nat)
    (start stop : Nat) : Prop :=
  ∀ vaddr mapping,
    start ≤ vaddr → vaddr < stop →
      halPgtblExtract setup mem vaddr = .ok mapping →
        ∀ other, other / mapping.pgsize = vaddr / mapping.pgsize →
          start ≤ other ∧ other < stop

/-- A page that lies partly in a range cannot be unmapped with the range. -/
theorem RangeUnmapped.pagesInside
    (range : RangeUnmapped setup start stop state after)
    (sound : TreeSound setup state.pgtbl)
    (translated : ∀ vaddr, start ≤ vaddr → vaddr < stop → InSv39 vaddr) :
    PagesInside setup state.pgtbl.mem start stop := by
  intro vaddr mapping lower upper extracted other samePage
  obtain ⟨level, bound, size⟩ := pgsize_of_extract sound extracted
  rw [size] at samePage
  have vaddrIn := translated vaddr lower upper
  have otherIn := inSv39_of_samePage bound vaddrIn samePage
  by_contra outside
  -- the page is still found at the other address, so it is at this one
  have still := range.others other otherIn outside
  rw [extract_of_sameEntry extracted size bound
    ((sameEntry_iff_of_inSv39 bound otherIn vaddrIn).mpr samePage)] at still
  have here := extract_of_sameEntry still size bound
    ((sameEntry_iff_of_inSv39 bound vaddrIn otherIn).mpr samePage.symm)
  rw [range.unmapped vaddr lower upper] at here
  cases here

namespace PagesInside

/-- A page that the start of the range meets starts there. -/
theorem first
    (inside : PagesInside setup state.pgtbl.mem start stop)
    (sound : TreeSound setup state.pgtbl)
    (more : start < stop)
    (extracted :
      halPgtblExtract setup state.pgtbl.mem start = .ok mapping) :
    start % mapping.pgsize = 0 ∧ start + mapping.pgsize ≤ stop := by
  obtain ⟨level, _, size⟩ := pgsize_of_extract sound extracted
  have positive := targetSize_pos level
  rw [← size] at positive
  have samePage := inside start mapping le_rfl more extracted
  obtain ⟨lower, _⟩ := samePage (start / mapping.pgsize * mapping.pgsize)
    (Nat.mul_div_cancel _ positive)
  have base := Nat.div_mul_le_self start mapping.pgsize
  have parts := Nat.div_add_mod' start mapping.pgsize
  have isAligned : start % mapping.pgsize = 0 := by omega
  refine ⟨isAligned, ?_⟩
  obtain ⟨_, upper⟩ := samePage (start + (mapping.pgsize - 1)) (by
    obtain ⟨number, rfl⟩ := Nat.dvd_of_mod_eq_zero isAligned
    rw [Nat.mul_add_div positive, Nat.mul_div_cancel_left _ positive,
      Nat.div_eq_of_lt (by omega), Nat.add_zero])
  omega

/-- Unmapping the first page leaves the other pages inside. -/
theorem next
    (inside : PagesInside setup state.pgtbl.mem start stop)
    (translated : ∀ vaddr, start ≤ vaddr → vaddr < stop → InSv39 vaddr)
    (first : PageUnmapped setup unmanaged start stop mapping state middle) :
    PagesInside setup middle.pgtbl.mem (start + mapping.pgsize) stop := by
  intro vaddr other lower upper extracted address samePage
  have before := first.behind translated vaddr lower upper
  rw [extracted] at before
  obtain ⟨above, below⟩ :=
    inside vaddr other (by omega) upper before.symm address samePage
  refine ⟨not_lt.mp fun here => ?_, below⟩
  -- an address of the first page would still be found
  obtain ⟨level, bound, size⟩ := pgsize_of_extract first.sound extracted
  rw [size] at samePage
  have found := extract_of_sameEntry extracted size bound
    ((sameEntry_iff_of_inSv39 bound (translated address above below)
      (translated vaddr (by omega) upper)).mpr samePage)
  rw [first.unmapped address ⟨above, here⟩] at found
  cases found

/-- A step over a hole, by a page size, leaves the other pages inside. -/
theorem skip
    {level : Nat}
    (inside : PagesInside setup state.pgtbl.mem start stop)
    (sound : TreeSound setup state.pgtbl)
    (translated : ∀ vaddr, start ≤ vaddr → vaddr < stop → InSv39 vaddr)
    (more : start < stop)
    (bound : level ≤ 2)
    (isAligned : targetSize level ∣ start)
    (hole : halPgtblExtract setup state.pgtbl.mem start = .error .enoent) :
    PagesInside setup state.pgtbl.mem (start + targetSize level) stop := by
  intro vaddr mapping lower upper extracted other samePage
  obtain ⟨above, below⟩ :=
    inside vaddr mapping (by omega) upper extracted other samePage
  refine ⟨not_lt.mp fun here => ?_, below⟩
  obtain ⟨pageLevel, pageBound, size⟩ := pgsize_of_extract sound extracted
  have firstPage :
      start / mapping.pgsize ≠ vaddr / mapping.pgsize := by
    intro samePage
    rw [size] at samePage
    have found := extract_of_sameEntry extracted size pageBound
      ((sameEntry_iff_of_inSv39 pageBound (translated start le_rfl more)
        (translated vaddr (by omega) upper)).mpr samePage)
    rw [hole] at found
    cases found
  rw [size] at samePage firstPage
  obtain ⟨number, rfl⟩ := isAligned
  -- a page across the end of the step would hold its start as well
  interval_cases level <;> interval_cases pageLevel <;>
    simp only [show targetSize 0 = 2 ^ 30 by decide,
      show targetSize 1 = 2 ^ 21 by decide,
      show targetSize 2 = 2 ^ 12 by decide] at * <;>
    omega

end PagesInside

/-- At a hole a round of `hal_pgtbl_remove` stops at its assertion. -/
theorem unmapPage_of_hole
    (sound : TreeSound setup state.pgtbl)
    (own : setup.OwnAddr start)
    (hole : halPgtblExtract setup state.pgtbl.mem start = .error .enoent) :
    unmapPage setup state unmanaged start = none := by
  have stopped : removeTableReference setup state.pgtbl start = none := by
    by_contra removed
    obtain ⟨after, removed⟩ := Option.ne_none_iff_exists'.mp removed
    obtain ⟨level, entry, leaf, _⟩ :=
      removeTableReference_run sound own removed
    have found := halPgtblExtract_of_leaf sound leaf
    rw [hole] at found
    cases found
  rw [unmapPage, hole]
  simp only [dropMapped, stopped, Option.map_none]

theorem vmPgtblRemove_of_hole
    {flags size : Nat}
    (sound : TreeSound setup state.pgtbl)
    (own : setup.OwnAddr start)
    (hole : halPgtblExtract setup state.pgtbl.mem start = .error .enoent)
    (startAligned : pageSize ∣ start)
    (sizeAligned : pageSize ∣ size)
    (positive : 0 < size)
    (inSpace : start + size < addressSpace) :
    vmPgtblRemove setup state start flags size = none := by
  have next := Nat.mod_eq_of_lt inSpace
  have bothAligned :
      (aligned start pageSize && aligned (start + size) pageSize) = true := by
    rw [Bool.and_eq_true, aligned, aligned, beq_iff_eq, beq_iff_eq]
    exact ⟨Nat.mod_eq_zero_of_dvd startAligned,
      Nat.mod_eq_zero_of_dvd (Nat.dvd_add startAligned sizeAligned)⟩
  rw [vmPgtblRemove]
  simp only [next, bothAligned, if_true]
  rw [show removeRounds = 2 ^ 52 + 1 from rfl, unmapLoop,
    if_pos (by omega)]
  simp only [unmapPage_of_hole sound own hole]

/-- The reader reports a page or that nothing is mapped. -/
theorem extract_cases
    (sound : TreeSound setup state.pgtbl)
    (vaddr : Nat) :
    (∃ mapping,
        halPgtblExtract setup state.pgtbl.mem vaddr = .ok mapping) ∨
      halPgtblExtract setup state.pgtbl.mem vaddr = .error .enoent := by
  by_cases mapped :
      ∃ level entry, LeafAt setup state.pgtbl vaddr level entry
  · obtain ⟨level, entry, leaf⟩ := mapped
    exact .inl ⟨_, halPgtblExtract_of_leaf sound leaf⟩
  · exact .inr (halPgtblExtract_of_no_leaf sound fun level entry leaf =>
      mapped ⟨level, entry, leaf⟩)

/-- When the forced loop of `vm_unmap_common` ends, it met no hole. -/
theorem wholePages_of_vmUnmapLoop
    {flags rounds mapFlags mapPgsize : Nat}
    {result : Except Errno Unit}
    (ready :
      UnmapReady setup (flags &&& vmFlagsUnmanaged != 0) start stop state)
    (inside : PagesInside setup state.pgtbl.mem start stop)
    (roomy : stop + halPageSize1G ≤ addressSpace)
    (order : start ≤ stop)
    (startAligned : pageSize ∣ start)
    (sizeAligned : pageSize ∣ mapPgsize)
    (positive : 0 < mapPgsize)
    (sizeBound : mapPgsize ≤ halPageSize1G)
    (looped :
      vmUnmapLoop setup flags true stop rounds mapFlags mapPgsize start
        state = some (result, after)) :
    ∃ pages, WholePages setup state.pgtbl.mem start pages stop := by
  induction rounds generalizing start mapFlags mapPgsize state with
  | zero =>
      cases looped
  | succ rounds inductionHypothesis =>
      rcases Nat.eq_or_lt_of_le order with rfl | more
      · exact ⟨[], rfl⟩
      · rcases extract_cases ready.sound start with
          ⟨mapping, extracted⟩ | hole
        · obtain ⟨isAligned, bound⟩ :=
            inside.first ready.sound more extracted
          have large : 0 < halPageSize1G := by decide
          have page :=
            pageInside_of_extract ready.sound extracted isAligned (by omega)
          obtain ⟨level, levelBound, size⟩ :=
            pgsize_of_extract ready.sound extracted
          have pageBound : mapping.pgsize ≤ halPageSize1G := by
            rw [size]
            interval_cases level <;> decide
          obtain ⟨middle, removed, first⟩ :=
            ready.unmapPage extracted isAligned more
          rw [page.vmUnmapLoop more removed] at looped
          obtain ⟨pages, whole⟩ :=
            inductionHypothesis (ready.next first)
              (inside.next ready.translated first) bound page.stopAligned
              (size ▸ pageSize_dvd_targetSize levelBound) page.positive
              pageBound looped
          refine ⟨mapping :: pages, extracted,
            ready.translated start le_rfl more, isAligned, ?_⟩
          refine whole.congr fun vaddr vaddrIn lower => ?_
          exact (first.others vaddr vaddrIn fun both =>
            absurd both.2 (not_lt.mpr lower)).symm
        · -- the size that is left from before makes the remover go in
          have stopped :
              ∀ asked,
                vmPgtblRemove setup state start asked mapPgsize = none :=
            fun asked =>
              vmPgtblRemove_of_hole ready.sound
                (ready.own start le_rfl more) hole startAligned sizeAligned
                positive (by omega)
          rw [vmUnmapLoop, if_pos more] at looped
          simp only [hole, stopped] at looped
          cases looped

/-- Where the cursor meets the same, a range is swept. -/
theorem Swept.congr
    {mem next : Nat → Nat → Nat}
    {last : Option Nat}
    (swept : Swept setup mem stop last start)
    (same :
      ∀ vaddr, start ≤ vaddr → vaddr < stop →
        halPgtblExtract setup next vaddr = halPgtblExtract setup mem vaddr) :
    Swept setup next stop last start := by
  induction swept with
  | done finished =>
      exact .done finished
  | page more extracted isAligned inside later inductionHypothesis =>
      exact .page more ((same _ le_rfl more).trans extracted) isAligned inside
        (inductionHypothesis fun vaddr lower upper =>
          same vaddr (by omega) upper)
  | hole more positive inSpace unmapped later inductionHypothesis =>
      exact .hole more positive inSpace
        (fun vaddr lower below upper =>
          (same vaddr lower upper).trans (unmapped vaddr lower below upper))
        (inductionHypothesis fun vaddr lower upper =>
          same vaddr (by omega) upper)

/--
When the loop of `release_process_segment` ends, it has changed nothing outside
the range, and it has swept the range if nothing of it is left.
-/
theorem swept_of_releaseLoop
    {flags rounds rmPgsize : Nat}
    {last : Option Nat}
    (ready :
      UnmapReady setup (flags &&& vmFlagsUnmanaged != 0) start stop state)
    (inside : PagesInside setup state.pgtbl.mem start stop)
    (roomy : stop + halPageSize1G ≤ addressSpace)
    (valid :
      ∀ step, last = some step →
        rmPgsize = step ∧
          ∃ level ≤ 2, step = targetSize level ∧ step ∣ start)
    (mapped :
      last = none → start < stop →
        ∃ mapping,
          halPgtblExtract setup state.pgtbl.mem start = .ok mapping)
    (looped :
      releaseLoop setup locals (.ok ()) flags stop rounds rmPgsize start
        state = some after) :
    (∀ vaddr, InSv39 vaddr → ¬ (start ≤ vaddr ∧ vaddr < stop) →
        halPgtblExtract setup after.pgtbl.mem vaddr =
          halPgtblExtract setup state.pgtbl.mem vaddr) ∧
      ((∀ vaddr, start ≤ vaddr → vaddr < stop →
          halPgtblExtract setup after.pgtbl.mem vaddr = .error .enoent) →
        Swept setup state.pgtbl.mem stop last start) := by
  induction rounds generalizing start rmPgsize last state with
  | zero =>
      cases looped
  | succ rounds inductionHypothesis =>
      by_cases more : start < stop
      · rcases extract_cases ready.sound start with
          ⟨mapping, extracted⟩ | hole
        · obtain ⟨isAligned, bound⟩ :=
            inside.first ready.sound more extracted
          have large : 0 < halPageSize1G := by decide
          have page :=
            pageInside_of_extract ready.sound extracted isAligned (by omega)
          obtain ⟨level, levelBound, size⟩ :=
            pgsize_of_extract ready.sound extracted
          obtain ⟨middle, removed, first⟩ :=
            ready.unmapPage extracted isAligned more
          rw [releaseLoop, if_pos more] at looped
          simp only [extracted, page.vmUnmap removed,
            Nat.mod_eq_of_lt page.inSpace] at looped
          have nextAligned : mapping.pgsize ∣ start + mapping.pgsize :=
            Nat.dvd_add (Nat.dvd_of_mod_eq_zero isAligned) dvd_rfl
          have nextValid :
              ∀ step, some mapping.pgsize = some step →
                mapping.pgsize = step ∧
                  ∃ level ≤ 2,
                    step = targetSize level ∧
                      step ∣ start + mapping.pgsize := by
            rintro step ⟨⟩
            exact ⟨rfl, level, levelBound, size, nextAligned⟩
          obtain ⟨others, swept⟩ :=
            inductionHypothesis (ready.next first)
              (inside.next ready.translated first) nextValid nofun looped
          refine ⟨fun vaddr vaddrIn outside => ?_, fun unmapped => ?_⟩
          · rw [others vaddr vaddrIn fun both =>
              outside ⟨by omega, both.2⟩]
            exact first.others vaddr vaddrIn fun both =>
              outside ⟨both.1, lt_of_lt_of_le both.2 bound⟩
          · refine .page more extracted isAligned bound
              ((swept fun vaddr lower upper =>
                unmapped vaddr (by omega) upper).congr ?_)
            intro vaddr lower upper
            exact (first.behind ready.translated vaddr lower upper).symm
        · cases last with
          | none =>
              obtain ⟨mapping, extracted⟩ := mapped rfl more
              rw [hole] at extracted
              cases extracted
          | some step =>
              obtain ⟨rfl, level, levelBound, rfl, isAligned⟩ :=
                valid step rfl
              have positive := targetSize_pos level
              have stepBound : targetSize level ≤ halPageSize1G := by
                interval_cases level <;> decide
              rw [releaseLoop, if_pos more] at looped
              simp only [hole] at looped
              rw [Nat.mod_eq_of_lt (by omega)] at looped
              have nextValid :
                  ∀ step, some (targetSize level) = some step →
                    targetSize level = step ∧
                      ∃ other ≤ 2,
                        step = targetSize other ∧
                          step ∣ start + targetSize level := by
                rintro step ⟨⟩
                exact ⟨rfl, level, levelBound, rfl,
                  Nat.dvd_add isAligned dvd_rfl⟩
              obtain ⟨others, swept⟩ :=
                inductionHypothesis (ready.skip (targetSize level))
                  (inside.skip ready.sound ready.translated more levelBound
                    isAligned hole) nextValid nofun looped
              refine ⟨fun vaddr vaddrIn outside =>
                others vaddr vaddrIn fun both =>
                  outside ⟨by omega, both.2⟩, fun unmapped => ?_⟩
              refine .hole more positive (by omega) ?_
                (swept fun vaddr lower upper =>
                  unmapped vaddr (by omega) upper)
              -- what the step passes is as it was, and unmapped in the end
              intro vaddr lower below upper
              rw [← others vaddr (ready.translated vaddr lower upper)
                fun both => by omega]
              exact unmapped vaddr lower upper
      · rw [releaseLoop, if_neg more] at looped
        cases looped
        exact ⟨fun _ _ _ => rfl, fun _ => .done (not_lt.mp more)⟩

/-- With a size of zero the cursor stays in front of a hole. -/
theorem releaseLoop_of_hole
    {flags : Nat}
    {locked : Except Errno Unit}
    (more : start < stop)
    (inSpace : start < addressSpace)
    (hole : halPgtblExtract setup state.pgtbl.mem start = .error .enoent)
    (rounds : Nat) :
    releaseLoop setup locals locked flags stop rounds 0 start state = none := by
  induction rounds with
  | zero =>
      rfl
  | succ rounds inductionHypothesis =>
      rw [releaseLoop, if_pos more]
      simp only [hole, Nat.add_zero, Nat.mod_eq_of_lt inSpace]
      exact inductionHypothesis

/-! ## Which ranges are unmapped -/

/-- `vm_unmap_common` with force unmaps the pages of a range, and returns. -/
def UnmapsByForce
    (setup : PgtblSetup)
    (state : VmState)
    (vaddr flags size : Nat) : Prop :=
  ∀ locals, ∃ rounds after,
    vmUnmapCommon setup locals rounds state vaddr flags size true =
        some (.ok (), after) ∧
      RangeUnmapped setup (truncateAlign vaddr pageSize)
        (roundupAlign (vaddr + size) pageSize) state after

/-- `release_process_segment` unmaps the pages of a range, and returns. -/
def ReleasesSegment
    (setup : PgtblSetup)
    (locked : Except Errno Unit)
    (state : VmState)
    (vaddr flags size : Nat) : Prop :=
  ∀ locals rmPgsize, ∃ rounds after,
    releaseProcessSegment setup locals rmPgsize locked rounds state vaddr
        (vaddr + size) flags = some after ∧
      RangeUnmapped setup (truncateAlign vaddr pageSize)
        (roundupAlign (vaddr + size) pageSize) state after

/-- The end of a range, as both functions compute it. -/
theorem pageRoundup_eq
    {address : Nat}
    (inSpace : roundupAlign address pageSize < addressSpace) :
    pageRoundup (address % addressSpace) = roundupAlign address pageSize ∧
      pageRoundup address = roundupAlign address pageSize := by
  have page : pageSize = 4096 := rfl
  have space : addressSpace = 2 ^ 64 := rfl
  simp only [pageRoundup, roundupAlign, truncateAlign, page, space] at *
  constructor
  · rw [Nat.mod_eq_of_lt (show address < 2 ^ 64 by omega),
      Nat.mod_eq_of_lt (by omega)]
  · rw [Nat.mod_eq_of_lt (by omega)]

section Range

variable {vaddr flags size : Nat}
variable {locked : Except Errno Unit}

theorem range_order
    (vaddr size : Nat) :
    truncateAlign vaddr pageSize ≤ roundupAlign (vaddr + size) pageSize := by
  have page : pageSize = 4096 := rfl
  simp only [roundupAlign, truncateAlign, page]
  omega

/-- Whole pages are unmapped by force. -/
theorem UnmapReady.unmapsByForce
    {pages : List Mapping}
    (ready :
      UnmapReady setup (flags &&& vmFlagsUnmanaged != 0)
        (truncateAlign vaddr pageSize)
        (roundupAlign (vaddr + size) pageSize) state)
    (inSpace : roundupAlign (vaddr + size) pageSize < addressSpace)
    (whole :
      WholePages setup state.pgtbl.mem (truncateAlign vaddr pageSize) pages
        (roundupAlign (vaddr + size) pageSize)) :
    UnmapsByForce setup state vaddr flags size := by
  intro locals
  obtain ⟨after, (looped :
      vmUnmapLoop setup flags true (roundupAlign (vaddr + size) pageSize)
        (pages.length + 1) locals.mapFlags locals.mapPgsize
        (truncateAlign vaddr pageSize) state = some (.ok (), after)),
      range⟩ :=
    vmUnmapLoop_of_wholePages ready inSpace whole
  refine ⟨pages.length + 1, after, ?_, range⟩
  rw [vmUnmapCommon, (pageRoundup_eq inSpace).1]
  exact looped

/-- Only whole pages are unmapped by force. -/
theorem UnmapReady.wholePages_of_force
    (ready :
      UnmapReady setup (flags &&& vmFlagsUnmanaged != 0)
        (truncateAlign vaddr pageSize)
        (roundupAlign (vaddr + size) pageSize) state)
    (roomy :
      roundupAlign (vaddr + size) pageSize + halPageSize1G ≤ addressSpace)
    (unmaps : UnmapsByForce setup state vaddr flags size) :
    ∃ pages,
      WholePages setup state.pgtbl.mem (truncateAlign vaddr pageSize) pages
        (roundupAlign (vaddr + size) pageSize) := by
  obtain ⟨rounds, after, looped, range⟩ :=
    unmaps { mapFlags := 0, mapPgsize := pageSize }
  have large : 0 < halPageSize1G := by decide
  rw [vmUnmapCommon, (pageRoundup_eq (by omega)).1] at looped
  exact wholePages_of_vmUnmapLoop ready
    (range.pagesInside ready.sound ready.translated) roomy
    (range_order vaddr size) (Dvd.intro_left _ rfl) dvd_rfl (by decide)
    (by decide) looped

/-- A swept range is released. -/
theorem UnmapReady.releasesSegment
    (ready :
      UnmapReady setup (flags &&& vmFlagsUnmanaged != 0)
        (truncateAlign vaddr pageSize)
        (roundupAlign (vaddr + size) pageSize) state)
    (inSpace : roundupAlign (vaddr + size) pageSize < addressSpace)
    (swept :
      Swept setup state.pgtbl.mem (roundupAlign (vaddr + size) pageSize) none
        (truncateAlign vaddr pageSize))
    (free :
      locked = .ok () ∨
        roundupAlign (vaddr + size) pageSize ≤
          truncateAlign vaddr pageSize) :
    ReleasesSegment setup locked state vaddr flags size := by
  intro locals rmPgsize
  have stop := (pageRoundup_eq inSpace).2
  rcases free with rfl | empty
  · obtain ⟨rounds, after, looped, range⟩ :=
      releaseLoop_of_swept swept (fun _ _ _ => rfl) ready inSpace nofun
    refine ⟨rounds, after, ?_, range⟩
    rw [releaseProcessSegment, stop]
    exact looped
  · refine ⟨1, state, ?_, RangeUnmapped.refl empty⟩
    rw [releaseProcessSegment, stop, releaseLoop,
      if_neg (not_lt.mpr empty)]

/-- Only a swept range is released. -/
theorem UnmapReady.swept_of_release
    (ready :
      UnmapReady setup (flags &&& vmFlagsUnmanaged != 0)
        (truncateAlign vaddr pageSize)
        (roundupAlign (vaddr + size) pageSize) state)
    (roomy :
      roundupAlign (vaddr + size) pageSize + halPageSize1G ≤ addressSpace)
    (releases : ReleasesSegment setup locked state vaddr flags size) :
    Swept setup state.pgtbl.mem (roundupAlign (vaddr + size) pageSize) none
        (truncateAlign vaddr pageSize) ∧
      (locked = .ok () ∨
        roundupAlign (vaddr + size) pageSize ≤
          truncateAlign vaddr pageSize) := by
  have large : 0 < halPageSize1G := by decide
  have stop := (pageRoundup_eq (show
    roundupAlign (vaddr + size) pageSize < addressSpace by omega)).2
  obtain ⟨rounds, after, looped, range⟩ :=
    releases { mapFlags := 0, mapPgsize := 0 } 0
  rw [releaseProcessSegment, stop] at looped
  by_cases more :
      truncateAlign vaddr pageSize < roundupAlign (vaddr + size) pageSize
  · rcases extract_cases ready.sound (truncateAlign vaddr pageSize) with
      mapped | hole
    · cases locked with
      | error code =>
          -- the lock call fails at the first page
          obtain ⟨mapping, extracted⟩ := mapped
          cases rounds with
          | zero =>
              cases looped
          | succ rounds =>
              rw [releaseLoop, if_pos more] at looped
              simp only [extracted, vmUnmap] at looped
              cases looped
      | ok =>
          have noPage :
              ∀ step, none = some step →
                0 = step ∧
                  ∃ level ≤ 2,
                    step = targetSize level ∧
                      step ∣ truncateAlign vaddr pageSize :=
            nofun
          obtain ⟨_, swept⟩ :=
            swept_of_releaseLoop ready
              (range.pagesInside ready.sound ready.translated) roomy noPage
              (fun _ _ => mapped) looped
          exact ⟨swept range.unmapped, .inl rfl⟩
    · rw [releaseLoop_of_hole more (by omega) hole] at looped
      cases looped
  · exact ⟨.done (not_lt.mp more), .inr (not_lt.mp more)⟩

end Range

/--
By force exactly the ranges of whole mapped pages are unmapped, and a segment
is released exactly if its range is swept and the lock calls succeed.
-/
theorem range_unmapped_iff
    {vaddr flags size : Nat}
    {locked : Except Errno Unit}
    (new : NewPgtbl setup initial)
    (known : TablesKnown setup initial)
    (run :
      Run (Guarded (StepKnown setup) (PgtblStep setup)) initial actions
        state.pgtbl)
    (own :
      ∀ address, truncateAlign vaddr pageSize ≤ address →
        address < roundupAlign (vaddr + size) pageSize →
          setup.OwnAddr address)
    (translated :
      ∀ address, truncateAlign vaddr pageSize ≤ address →
        address < roundupAlign (vaddr + size) pageSize → InSv39 address)
    (backed :
      (flags &&& vmFlagsUnmanaged != 0) = false →
        RangeBacked setup state (truncateAlign vaddr pageSize)
          (roundupAlign (vaddr + size) pageSize)) :
    (roundupAlign (vaddr + size) pageSize < addressSpace →
      ((∃ pages,
          WholePages setup state.pgtbl.mem (truncateAlign vaddr pageSize)
            pages (roundupAlign (vaddr + size) pageSize)) →
        UnmapsByForce setup state vaddr flags size) ∧
      (Swept setup state.pgtbl.mem (roundupAlign (vaddr + size) pageSize)
            none (truncateAlign vaddr pageSize) ∧
          (locked = .ok () ∨
            roundupAlign (vaddr + size) pageSize ≤
              truncateAlign vaddr pageSize) →
        ReleasesSegment setup locked state vaddr flags size)) ∧
    (roundupAlign (vaddr + size) pageSize + halPageSize1G ≤ addressSpace →
      (UnmapsByForce setup state vaddr flags size ↔
        ∃ pages,
          WholePages setup state.pgtbl.mem (truncateAlign vaddr pageSize)
            pages (roundupAlign (vaddr + size) pageSize)) ∧
      (ReleasesSegment setup locked state vaddr flags size ↔
        Swept setup state.pgtbl.mem (roundupAlign (vaddr + size) pageSize)
            none (truncateAlign vaddr pageSize) ∧
          (locked = .ok () ∨
            roundupAlign (vaddr + size) pageSize ≤
              truncateAlign vaddr pageSize))) := by
  obtain ⟨sound, tablesKnown⟩ := run_tablesKnown new known run
  have ready :
      UnmapReady setup (flags &&& vmFlagsUnmanaged != 0)
        (truncateAlign vaddr pageSize)
        (roundupAlign (vaddr + size) pageSize) state :=
    { sound := sound
      known := tablesKnown
      own := own
      translated := translated
      backed := backed }
  constructor
  · intro inSpace
    exact
      ⟨fun ⟨_, whole⟩ => ready.unmapsByForce inSpace whole,
        fun ⟨swept, free⟩ => ready.releasesSegment inSpace swept free⟩
  · intro roomy
    have large : 0 < halPageSize1G := by decide
    have inSpace :
        roundupAlign (vaddr + size) pageSize < addressSpace := by
      omega
    exact
      ⟨⟨ready.wholePages_of_force roomy,
          fun ⟨_, whole⟩ => ready.unmapsByForce inSpace whole⟩,
        ⟨ready.swept_of_release roomy,
          fun ⟨swept, free⟩ => ready.releasesSegment inSpace swept free⟩⟩

/-- A managed page alone in its range is unmapped by both functions. -/
theorem range_unmapped_iff_onePage :
    ∃ state : VmState,
      Run (Guarded (StepKnown bareSetup) (PgtblStep bareSetup))
          (bareState [2, 3] [0x100])
          [.call (.enter (smallPage 0 0x100000))] state.pgtbl ∧
        UnmapsByForce bareSetup state 0 0 pageSize ∧
        ReleasesSegment bareSetup (.ok ()) state 0 0 pageSize := by
  obtain ⟨pgtbl, first⟩ :
      ∃ pgtbl,
        pgtblCall bareSetup (bareState [2, 3] [0x100])
          (.enter (smallPage 0 0x100000)) = some pgtbl :=
    Option.isSome_iff_exists.mp (by decide +kernel)
  have facts :
      ((pgtblCall bareSetup (bareState [2, 3] [0x100])
          (.enter (smallPage 0 0x100000))).map fun pgtbl =>
        (halPgtblExtract bareSetup pgtbl.mem 0, pgtbl.tables, pgtbl.free,
          pgtbl.usecnt 0x100)) =
        some
          (.ok (mappingOf (leafPte 3 0 0x100000) 0), [3, 2, 1], [], 1) := by
    decide +kernel
  rw [first, Option.map_some] at facts
  simp only [Option.some.injEq, Prod.mk.injEq] at facts
  obtain ⟨extracted, tables, free, count⟩ := facts
  have run :
      Run (Guarded (StepKnown bareSetup) (PgtblStep bareSetup))
        (bareState [2, 3] [0x100])
        [.call (.enter (smallPage 0 0x100000))] (vmState pgtbl).pgtbl :=
    .snoc .nil
      ⟨⟨fun _ _ => .inr ⟨by decide, fun _ _ _ => bareState_no_leaf _ _ _⟩,
        fun _ _ => rfl⟩, first⟩
  have bounds :
      truncateAlign 0 pageSize = 0 ∧
        roundupAlign (0 + pageSize) pageSize = 0x1000 := by
    decide
  -- the page at 0 is the only one that starts in the range
  have onlyPage :
      ∀ {pfn vaddr},
        vaddr ∈ pageStarts bareSetup pgtbl.mem 0 0x1000 pfn →
          vaddr = 0 ∧ pfn = 0x100 := by
    rintro pfn vaddr ⟨_, upper, mapping, found, isAligned, frame⟩
    have same : SameEntry 2 vaddr 0 := by
      rw [sameEntry_iff le_rfl, show targetSize 2 = 2 ^ 12 by decide]
      omega
    have here := extract_of_sameEntry extracted (by decide) le_rfl same
    rw [found] at here
    cases here
    have size : (mappingOf (leafPte 3 0 0x100000) 0).pgsize = 0x1000 := by
      decide
    rw [size] at isAligned
    exact ⟨by omega, frame ▸ by decide⟩
  have backed : RangeBacked bareSetup (vmState pgtbl) 0 0x1000 := by
    refine
      { backed := fun pfn ⟨vaddr, page⟩ => ?_
        disjoint := fun pfn other ⟨_, page⟩ ⟨_, otherPage⟩ different =>
          absurd ((onlyPage page).2.trans (onlyPage otherPage).2.symm)
            different }
    obtain ⟨_, rfl⟩ := onlyPage page
    have single : cluster 0x100 ((vmState pgtbl).order 0x100) = [0x100] := rfl
    refine
      { known := rfl
        counted := ?_
        apart := ?_
        tail := ?_ }
    · have onlyZero :
          pageStarts bareSetup pgtbl.mem 0 0x1000 0x100 ⊆ {0} :=
        fun vaddr page => (onlyPage page).1
      have few :=
        (Set.ncard_le_ncard onlyZero).trans_eq (Set.ncard_singleton 0)
      show (_ : Int) ≤ pgtbl.usecnt 0x100
      rw [count]
      exact_mod_cast few
    · rw [single]
      intro frame isHead
      obtain rfl := List.mem_singleton.mp isHead
      show 0x100 ∉ pgtbl.tables ∧ 0x100 ∉ pgtbl.free ∧ 0x100 < 2 ^ 44
      rw [tables, free]
      decide
    · rw [single]
      intro frame isHead isTail
      exact absurd (List.mem_singleton.mp isHead) isTail
  have inSv39 :
      ∀ address, truncateAlign 0 pageSize ≤ address →
        address < roundupAlign (0 + pageSize) pageSize → InSv39 address := by
    intro address _ upper
    rw [bounds.2] at upper
    left
    omega
  have managed :
      (0 &&& vmFlagsUnmanaged != 0) = false →
        RangeBacked bareSetup (vmState pgtbl) (truncateAlign 0 pageSize)
          (roundupAlign (0 + pageSize) pageSize) := by
    rw [bounds.1, bounds.2]
    exact fun _ => backed
  have both :
      ((∃ pages,
          WholePages bareSetup pgtbl.mem 0 pages 0x1000) →
        UnmapsByForce bareSetup (vmState pgtbl) 0 0 pageSize) ∧
      (Swept bareSetup pgtbl.mem 0x1000 none 0 ∧
          ((.ok () : Except Errno Unit) = .ok () ∨ 0x1000 ≤ 0) →
        ReleasesSegment bareSetup (.ok ()) (vmState pgtbl) 0 0 pageSize) :=
    (range_unmapped_iff (bareState_new (by decide) (by decide))
      (fun _ _ => rfl) run (fun _ _ _ => rfl) inSv39 managed).1 (by decide)
  refine ⟨vmState pgtbl, run, both.1 ⟨[_], extracted, ?_, ?_, rfl⟩,
    both.2 ⟨.page (by decide) extracted ?_ ?_ (.done ?_), .inl rfl⟩⟩
  · left
    decide
  all_goals decide

/--
By force a hole stops the kernel, whether it is the first page or not, and with
a size of zero left in its local `release_process_segment` never gets past a
first hole.  Behind a large page it steps over a mapped one.
-/
theorem holes_not_passed :
    NewPgtbl bareSetup (bareState [2, 3] []) ∧
      (∀ rounds,
        vmUnmapCommon bareSetup { mapFlags := 0, mapPgsize := pageSize } rounds
          (vmState (bareState [2, 3] [])) 0 0 pageSize true = none) ∧
      (∀ rounds,
        releaseProcessSegment bareSetup { mapFlags := 0, mapPgsize := 0 } 0
          (.ok ()) rounds (vmState (bareState [2, 3] [])) 0 pageSize 0 =
            none) ∧
      ∃ pgtbl after,
        Run (PgtblStep bareSetup) (bareState [2, 3] [])
            [.call (.enter (largePage 0 0x400000 3)),
              .call (.enter (smallPage 0x201000 0x100000))] pgtbl ∧
          releaseProcessSegment bareSetup { mapFlags := 0, mapPgsize := 0 } 0
              (.ok ()) 3 (vmState pgtbl) 0 0x400000 vmFlagsUnmanaged =
            some after ∧
          halPgtblExtract bareSetup after.pgtbl.mem 0x201000 =
            .ok (mappingOf (leafPte 3 0 0x100000) 0) := by
  refine ⟨bareState_new (by decide) (by decide), fun rounds => ?_, ?_, ?_⟩
  · cases rounds with
    | zero =>
        rfl
    | succ rounds =>
        have stopped :
            vmPgtblRemove bareSetup (vmState (bareState [2, 3] [])) 0 0
              pageSize = none := by
          have isNone :
              (vmPgtblRemove bareSetup (vmState (bareState [2, 3] [])) 0 0
                pageSize).isNone = true := by
            decide +kernel
          exact Option.isNone_iff_eq_none.mp isNone
        have hole :
            halPgtblExtract bareSetup
                (vmState (bareState [2, 3] [])).pgtbl.mem 0 =
              .error .enoent := by
          decide +kernel
        have bounds :
            pageRoundup ((0 + pageSize) % addressSpace) = 0x1000 ∧
              truncateAlign 0 pageSize = 0 := by
          decide
        rw [vmUnmapCommon, bounds.1, bounds.2, vmUnmapLoop,
          if_pos (by decide)]
        simp only [hole, Nat.or_self, stopped]
  · exact releaseLoop_of_hole (by decide) (by decide) (by decide +kernel)
  · obtain ⟨pgtbl, executed⟩ :
        ∃ pgtbl,
          execute (pgtblCall bareSetup) (bareState [2, 3] [])
            [.enter (largePage 0 0x400000 3),
              .enter (smallPage 0x201000 0x100000)] = some pgtbl :=
      Option.isSome_iff_exists.mp (by decide +kernel)
    have facts :
        ((execute (pgtblCall bareSetup) (bareState [2, 3] [])
            [.enter (largePage 0 0x400000 3),
              .enter (smallPage 0x201000 0x100000)]).bind fun pgtbl =>
          (releaseProcessSegment bareSetup { mapFlags := 0, mapPgsize := 0 } 0
              (.ok ()) 3 (vmState pgtbl) 0 0x400000
              vmFlagsUnmanaged).map fun after =>
            halPgtblExtract bareSetup after.pgtbl.mem 0x201000) =
          some (.ok (mappingOf (leafPte 3 0 0x100000) 0)) := by
      decide +kernel
    rw [executed, Option.bind_some] at facts
    obtain ⟨after, released, still⟩ := Option.map_eq_some_iff.mp facts
    exact ⟨pgtbl, after, run_of_calls executed, released, still⟩

end RiscvWorkshop.Vm
