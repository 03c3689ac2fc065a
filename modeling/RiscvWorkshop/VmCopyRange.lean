import Mathlib
import RiscvWorkshop.VmMapRollback

namespace RiscvWorkshop.Vm

open Pgtbl

/-!
# Copying a range

`vm_copy_range` maps what the source maps: the same physical page when it is
not managed, and else a fresh cluster that the content of the source page is
copied to.  The module holds the code, and says what the copy of one page does.
-/

/-- The 8-byte words of a page. -/
def pageWords : Nat := pageSize / 8

/-- `vm_copy_kmap_page`: the content of one page of normal size. -/
def vmCopyKmapPage (state : VmState) (dest src : Nat) : VmState :=
  { state with
    pgtbl :=
      { state.pgtbl with
        mem := Function.update state.pgtbl.mem dest fun idx =>
          if idx < pageWords then
            state.pgtbl.mem src idx
          else
            state.pgtbl.mem dest idx } }

/-- The loop that copies the pages of a cluster, by the rounds left. -/
def copyLoop
    (dest : Nat) :
    Nat → Nat → VmState → VmState
  | 0, _, state => state
  | rounds + 1, curCpy, state =>
      -- the source hands out the first page of the copy in every round
      copyLoop dest rounds (curCpy + 1) (vmCopyKmapPage state dest curCpy)

/--
The round of `vm_copy_range` for one page, with the size by which it goes on.
-/
def vmCopyPage
    (setup srcSetup : PgtblSetup)
    (pool : PagePool)
    (flags : Nat)
    (state : VmState)
    (curVaddr : Nat) : Option (Except Errno Nat × VmState) :=
  match halPgtblExtract srcSetup state.pgtbl.mem curVaddr with
  | .error code => some (.error code, state)
  | .ok src =>
      let destFlags := flags ||| src.flags
      if destFlags &&& vmFlagsUnmanaged ≠ 0 then
        -- an error is ignored for a page that is not managed
        (halPgtblEnter setup state.pgtbl
          { vaddr := curVaddr
            paddr := src.paddr
            prot := src.prot
            flags := destFlags
            len := src.pgsize }).map fun entered =>
          (.ok src.pgsize, { state with pgtbl := entered.2 })
      else if srcSetup.isPfnValid (src.paddr >>> pageShift) then
        match pgifCalcPageOrder src.pgsize with
        | none => none
        | some order =>
            if src.pgsize = pageSize <<< order then
              match pgifGetFreePageCluster pool state order with
              | none => some (.error .enomem, state)
              | some (pfn, state) =>
                  let state :=
                    copyLoop pfn (src.pgsize / pageSize)
                      (src.paddr >>> pageShift) state
                  match halPgtblEnter setup state.pgtbl
                      { vaddr := curVaddr
                        paddr := pfn <<< pageShift
                        prot := src.prot
                        flags := destFlags
                        len := pageSize <<< order } with
                  | none => none
                  | some (.error code, pgtbl) =>
                      (pfdbDecPageUseCount { state with pgtbl := pgtbl }
                        pfn).map fun freed => (.error code, freed.2)
                  | some (.ok (), pgtbl) =>
                      some (.ok src.pgsize, { state with pgtbl := pgtbl })
            else
              none
      else
        none

/--
The loop of `vm_copy_range`, with the address at which it ended.  The first
argument bounds the rounds.
-/
def vmCopyLoop
    (setup srcSetup : PgtblSetup)
    (pool : PagePool)
    (flags endVaddr : Nat) :
    Nat → Nat → VmState → Option (Except Errno Unit × Nat × VmState)
  | 0, _, _ => none
  | rounds + 1, curVaddr, state =>
      if endVaddr > curVaddr then
        match vmCopyPage setup srcSetup pool flags state curVaddr with
        | none => none
        | some (.error code, state) => some (.error code, curVaddr, state)
        | some (.ok srcPgsize, state) =>
            vmCopyLoop setup srcSetup pool flags endVaddr rounds
              ((curVaddr + srcPgsize) % addressSpace) state
      else
        some (.ok (), curVaddr, state)

/--
`vm_copy_range`, with what the lock calls on the mutexes end with, and a bound
on the rounds of its loops.
-/
def vmCopyRange
    (setups : Nat → PgtblSetup)
    (pool : PagePool)
    (locals : UnmapLocals)
    (locked : Nat → Except Errno Unit)
    (rounds : Nat)
    (state : VmState)
    (destPgt srcPgt vaddr flags size : Nat) :
    Option (Except Errno Unit × VmState × List MutexCall) :=
  let staVaddr := truncateAlign vaddr pageSize
  let endVaddr := pageRoundup ((vaddr + size) % addressSpace)
  let unlockDest := if destPgt ≠ srcPgt then [.unlock destPgt] else []
  match locked destPgt with
  | .error code => some (.error code, state, [])
  | .ok () =>
      match if destPgt ≠ srcPgt then locked srcPgt else .ok () with
      | .error code => some (.error code, state, .lock destPgt :: unlockDest)
      | .ok () =>
          let lockSrc := if destPgt ≠ srcPgt then [.lock srcPgt] else []
          let calls :=
            .lock destPgt :: lockSrc ++ .unlock srcPgt :: unlockDest
          match vmCopyLoop (setups destPgt) (setups srcPgt) pool flags endVaddr
              rounds staVaddr state with
          | none => none
          | some (.ok (), _, state) => some (.ok (), state, calls)
          | some (.error code, curVaddr, state) =>
              if curVaddr ≥ staVaddr then
                (vmUnmapCommon (setups destPgt) locals rounds state staVaddr
                  flags (curVaddr - staVaddr) true).map fun unmapped =>
                    (.error code, unmapped.2, calls)
              else
                none

variable {setup srcSetup : PgtblSetup}
variable {pool : PagePool}
variable {state after : VmState}
variable {mem : Nat → Nat → Nat}
variable {vaddr dest curCpy : Nat}

/-! ## Pages of the source -/

/-- What an entry says about a page: an access, and that it may be managed. -/
theorem mappingOf_attributes
    {pte : Nat}
    (valid : pteIsValid pte = true)
    (isLeaf : pteIsLeaf pte = true)
    (lvl : Nat) :
    (mappingOf pte lvl).prot &&& vmProtMask = (mappingOf pte lvl).prot ∧
      (mappingOf pte lvl).prot ≠ 0 ∧
      (mappingOf pte lvl).flags &&& vmFlagsUnmanaged = 0 := by
  have access :
      pteFlags pte &&& pteR ≠ 0 ∨ pteFlags pte &&& pteW ≠ 0 ∨
        pteFlags pte &&& pteX ≠ 0 := by
    by_contra none
    simp only [not_or, not_not] at none
    rw [pteIsLeaf, Nat.and_or_distrib_left, Nat.and_or_distrib_left, none.1,
      none.2.1, none.2.2] at isLeaf
    cases isLeaf
  simp only [mappingOf, pteToVmprotAndVmflags, valid, if_true]
  constructor
  · split_ifs <;> decide
  · constructor
    · rcases access with access | access | access <;>
        simp only [access, if_true, ne_eq, not_false_eq_true] <;>
        split_ifs <;> decide
    · split_ifs <;> decide

/-- A page of the source, as a page that can be mapped at an address. -/
theorem exists_sourcePage
    {source : Mapping}
    (extracted : halPgtblExtract srcSetup mem vaddr = .ok source) :
    ∃ frame target,
      target ≤ 2 ∧ source.pgsize = targetSize target ∧
        source.paddr = frame <<< pageShift ∧ frame < 2 ^ 44 ∧
        source.prot &&& vmProtMask = source.prot ∧ source.prot ≠ 0 ∧
        source.flags &&& vmFlagsUnmanaged = 0 := by
  obtain ⟨lvl, below, pte, valid, isLeaf, rfl⟩ := extractLoop_leaf extracted
  have inTree : lvl ≤ 2 := Nat.lt_succ_iff.mp below
  refine ⟨pteToPfn pte, 2 - lvl, Nat.sub_le 2 lvl, ?_, rfl,
    ppnMask_and_lt _, mappingOf_attributes valid isLeaf lvl⟩
  rw [targetSize, Nat.sub_sub_self inTree]
  rfl

/-- The walk reads the tables on its trail only. -/
theorem extractLoop_of_trail
    {other : Nat → Nat → Nat}
    {levels table : Nat}
    (same :
      ∀ known ∈ extractTrail mem vaddr levels table, other known = mem known) :
    extractLoop other vaddr levels table = extractLoop mem vaddr levels table := by
  induction levels generalizing table with
  | zero =>
      rfl
  | succ lvl inductionHypothesis =>
      rw [extractTrail] at same
      have head : walkPgtbl other table lvl vaddr = walkPgtbl mem table lvl vaddr := by
        have here : other table = mem table := by
          cases walked : walkPgtbl mem table lvl vaddr with
          | next below =>
              rw [walked] at same
              exact same table List.mem_cons_self
          | unmapped =>
              rw [walked] at same
              exact same table List.mem_cons_self
          | mapped =>
              rw [walked] at same
              exact same table List.mem_cons_self
        rw [walkPgtbl, walkPgtbl, here]
      rw [extractLoop, extractLoop, head]
      cases walked : walkPgtbl mem table lvl vaddr with
      | next below =>
          rw [walked] at same
          exact inductionHypothesis fun known later =>
            same known (List.mem_cons_of_mem table later)
      | unmapped =>
          rfl
      | mapped =>
          rfl

/-- Addresses of one smallest page have one trail. -/
theorem extractTrail_sameEntry
    {other lvl : Nat}
    (same : SameEntry 2 vaddr other)
    (inTree : lvl ≤ pgtblLvlNr)
    (mem : Nat → Nat → Nat)
    (table : Nat) :
    extractTrail mem vaddr lvl table = extractTrail mem other lvl table := by
  induction lvl generalizing table with
  | zero =>
      rfl
  | succ lvl inductionHypothesis =>
      have levelNr : pgtblLvlNr = 3 := rfl
      have digits := same (2 - lvl) (by omega)
      rw [digit, digit, Nat.sub_sub_self (by omega)] at digits
      have below := inductionHypothesis (Nat.le_of_succ_le inTree)
      simp only [extractTrail, walkPgtbl, digits, below]

/-! ## The copy of a cluster -/

/-- The state after one page got other content. -/
def VmState.setPage
    (state : VmState)
    (frame : Nat)
    (words : Nat → Nat) : VmState :=
  { state with
    pgtbl :=
      { state.pgtbl with
        mem := Function.update state.pgtbl.mem frame words } }

/-- Copying a cluster writes one page. -/
theorem copyLoop_setPage
    (dest rounds curCpy : Nat)
    (state : VmState) :
    ∃ words, copyLoop dest rounds curCpy state = state.setPage dest words := by
  induction rounds generalizing curCpy state with
  | zero =>
      refine ⟨state.pgtbl.mem dest, ?_⟩
      rw [copyLoop, VmState.setPage, Function.update_eq_self]
  | succ rounds inductionHypothesis =>
      obtain ⟨words, same⟩ :=
        inductionHypothesis (curCpy + 1) (vmCopyKmapPage state dest curCpy)
      refine ⟨words, ?_⟩
      rw [copyLoop, same]
      simp only [VmState.setPage, vmCopyKmapPage, Function.update_idem]

/-- The page holds the last page that was copied to it. -/
theorem copyLoop_words
    {rounds idx : Nat}
    (apart : ∀ number ≤ rounds, curCpy + number ≠ dest)
    (inside : idx < pageWords) :
    (copyLoop dest (rounds + 1) curCpy state).pgtbl.mem dest idx =
      state.pgtbl.mem (curCpy + rounds) idx := by
  induction rounds generalizing curCpy state with
  | zero =>
      rw [copyLoop, copyLoop]
      simp only [vmCopyKmapPage, Function.update_self, if_pos inside]
      rfl
  | succ rounds inductionHypothesis =>
      have later : ∀ number ≤ rounds, curCpy + 1 + number ≠ dest := by
        intro number bound
        rw [Nat.add_assoc, Nat.add_comm 1]
        exact apart (number + 1) (Nat.succ_le_succ bound)
      rw [copyLoop, inductionHypothesis later]
      have last := later rounds le_rfl
      rw [vmCopyKmapPage]
      simp only [Function.update_of_ne last]
      rw [Nat.add_assoc, Nat.add_comm 1]

end RiscvWorkshop.Vm
