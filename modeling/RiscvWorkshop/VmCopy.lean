import Mathlib
import RiscvWorkshop.KernelBase
import RiscvWorkshop.PageTable
import RiscvWorkshop.PagedSpace

namespace RiscvWorkshop.Vm

open Pgtbl

/-!
# Strings and bytes in an address space

`vm_strlen` and `vm_memmove` read page tables under their mutexes and move
bytes of physical memory, which the kernel reaches at its straight map.  The
tables are kept apart from the bytes that are moved.  An address is not reduced
to 64 bits, since the walk reads bits 12 to 38 of it only.  A call that stops
at an assertion has no result.
-/

/-- A page table: where its tables are, and what they hold. -/
structure VmPgtbl where
  setup : PgtblSetup
  tables : Nat → Nat → Nat

/-- `hal_pgtbl_extract` on a page table. -/
def VmPgtbl.extract
    (pgt : VmPgtbl)
    (vaddr : Nat) : Except Errno Mapping :=
  halPgtblExtract pgt.setup pgt.tables vaddr

/-- A call on the mutex of the page table at an address that did its work. -/
inductive MutexCall where
  | lock (pgt : Nat)
  | unlock (pgt : Nat)
deriving Repr, DecidableEq

/-- The bytes of physical memory. -/
abbrev Bytes := Nat → BitVec 8

/-- The page tables at their addresses, and the frames that the database knows. -/
structure VmSystem where
  pgtbl : Nat → VmPgtbl
  isPfnValid : Nat → Bool

/-- `pfdb_paddr_to_kvaddr` under its assertion. -/
def VmSystem.known
    (system : VmSystem)
    (paddr : Nat) : Bool :=
  system.isPfnValid (paddr >>> pageShift)

section Strlen

variable (system : VmSystem)
variable (bytes : Bytes)

/-- The inner loop of `vm_strlen`: whether it met a null, and the length so far. -/
def findNull : Nat → Nat → Nat → Bool × Nat
  | 0, _, curLen => (false, curLen)
  | remain + 1, sKmem, curLen =>
      if bytes sKmem = 0 then
        (true, curLen)
      else
        findNull remain (sKmem + 1) ((curLen + 1) % addressSpace)

/-- The outer loop of `vm_strlen`; the first argument bounds its rounds. -/
def strlenLoop
    (pgt : Nat) :
    Nat → Nat → Nat → Option Nat
  | 0, _, _ => none
  | rounds + 1, sp, curLen =>
      match (system.pgtbl pgt).extract sp with
      | .error _ => some 0
      | .ok mapping =>
          if system.known mapping.paddr then
            let off := sp % mapping.pgsize
            let remain := mapping.pgsize - off
            match findNull bytes remain (mapping.paddr + off) curLen with
            | (true, curLen) => some curLen
            | (false, curLen) => strlenLoop pgt rounds (sp + 1) curLen
          else
            none

/-- `vm_strlen`, with what the lock call on the mutex ends with. -/
def vmStrlen
    (locked : Nat → Except Errno Unit)
    (rounds pgt s : Nat) : Option (Nat × List MutexCall) :=
  match locked pgt with
  | .error _ => some (0, [])
  | .ok () =>
      (strlenLoop system bytes pgt rounds s 0).map fun curLen =>
        (curLen, [.lock pgt, .unlock pgt])

end Strlen

section Memmove

variable (system : VmSystem)

/-- `memmove`. -/
def memmove
    (bytes : Bytes)
    (dest src len : Nat) : Bytes :=
  fun paddr =>
    if dest ≤ paddr ∧ paddr < dest + len then
      bytes (src + (paddr - dest))
    else
      bytes paddr

/--
The loop of `vm_memmove`: the bytes that are left, and the memory.  The first
argument bounds the rounds.
-/
def memmoveLoop
    (destPgt srcPgt : Nat) :
    Nat → Bytes → Nat → Nat → Nat → Option (Nat × Bytes)
  | 0, _, _, _, _ => none
  | rounds + 1, bytes, dp, sp, totalRemain =>
      if totalRemain = 0 then
        some (0, bytes)
      else
        match (system.pgtbl destPgt).extract dp with
        | .error _ => some (totalRemain, bytes)
        | .ok destMapping =>
            if system.known destMapping.paddr then
              match (system.pgtbl srcPgt).extract sp with
              | .error _ => some (totalRemain, bytes)
              | .ok srcMapping =>
                  if system.known srcMapping.paddr then
                    let destOff := dp % destMapping.pgsize
                    let destRemain := destMapping.pgsize - destOff
                    -- the source takes the offset of the destination
                    let srcOff := dp % srcMapping.pgsize
                    let srcRemain := srcMapping.pgsize - srcOff
                    let cpyLen := min totalRemain (min destRemain srcRemain)
                    memmoveLoop destPgt srcPgt rounds
                      (memmove bytes (destMapping.paddr + destOff)
                        (srcMapping.paddr + srcOff) cpyLen)
                      (dp + cpyLen) (sp + cpyLen) (totalRemain - cpyLen)
                  else
                    none
            else
              none

/-- `vm_memmove`, with what the lock calls on the mutexes end with. -/
def vmMemmove
    (locked : Nat → Except Errno Unit)
    (bytes : Bytes)
    (destPgt dest srcPgt src len : Nat) :
    Option (Nat × Bytes × List MutexCall) :=
  match locked destPgt with
  | .error _ => some (len, bytes, [])
  | .ok () =>
      if destPgt ≠ srcPgt then
        match locked srcPgt with
        | .error _ => some (len, bytes, [.lock destPgt, .unlock destPgt])
        | .ok () =>
            (memmoveLoop system destPgt srcPgt (len + 1) bytes dest src
              len).map fun (remain, bytes) =>
                (remain, bytes,
                  [.lock destPgt, .lock srcPgt, .unlock srcPgt,
                    .unlock destPgt])
      else
        (memmoveLoop system destPgt srcPgt (len + 1) bytes dest src len).map
          fun (remain, bytes) =>
            (remain, bytes, [.lock destPgt, .unlock srcPgt])

end Memmove

/-! ## Pages of a page table -/

theorem pgtblCalcPagesize_pos (lvl : Nat) :
    0 < pgtblCalcPagesize lvl := by
  rw [pgtblCalcPagesize, Nat.shiftLeft_eq, Nat.one_mul]
  exact Nat.two_pow_pos _

/-- A page that the walk finds is a leaf of one of the levels that are left. -/
theorem extractLoop_leaf
    {mem : Nat → Nat → Nat}
    {vaddr levels table : Nat}
    {mapping : Mapping}
    (extracted : extractLoop mem vaddr levels table = .ok mapping) :
    ∃ lvl < levels, ∃ pte,
      pteIsValid pte = true ∧ pteIsLeaf pte = true ∧
        mapping = mappingOf pte lvl := by
  induction levels generalizing table with
  | zero =>
      cases extracted
  | succ lvl inductionHypothesis =>
      rw [extractLoop] at extracted
      cases walked : walkPgtbl mem table lvl vaddr with
      | unmapped =>
          rw [walked] at extracted
          cases extracted
      | mapped found =>
          rw [walked] at extracted
          cases extracted
          simp only [walkPgtbl] at walked
          split_ifs at walked with valid isLeaf
          cases walked
          exact ⟨lvl, Nat.lt_succ_self lvl, _, valid, isLeaf, rfl⟩
      | next lower =>
          rw [walked] at extracted
          obtain ⟨level, below, found⟩ := inductionHypothesis extracted
          exact ⟨level, Nat.lt_succ_of_lt below, found⟩

/-- A page is of the size of one of the levels that are left. -/
theorem extractLoop_pgsize
    {mem : Nat → Nat → Nat}
    {vaddr levels table : Nat}
    {mapping : Mapping}
    (extracted : extractLoop mem vaddr levels table = .ok mapping) :
    ∃ lvl < levels, mapping.pgsize = pgtblCalcPagesize lvl := by
  obtain ⟨lvl, below, _, _, _, rfl⟩ := extractLoop_leaf extracted
  exact ⟨lvl, below, rfl⟩

/-- Addresses of one page have the same indices at its level and above. -/
theorem pgtblCalcIndexVal_congr
    {vaddr other lower lvl : Nat}
    (below : lower ≤ lvl)
    (inTree : lvl < pgtblLvlNr)
    (same :
      other / pgtblCalcPagesize lower = vaddr / pgtblCalcPagesize lower) :
    pgtblCalcIndexVal other lvl = pgtblCalcIndexVal vaddr lvl := by
  have shifts :
      pgtblIndexShift lvl =
        pgtblIndexShift lower + (pgtblIndexShift lvl - pgtblIndexShift lower) := by
    rw [pgtblLvlNr] at inTree
    simp only [pgtblIndexShift, pgtblLvlNr]
    omega
  rw [pgtblCalcPagesize, Nat.shiftLeft_eq, Nat.one_mul] at same
  rw [pgtblCalcIndexVal, pgtblCalcIndexVal, shifts, Nat.shiftRight_add,
    Nat.shiftRight_add, Nat.shiftRight_eq_div_pow other,
    Nat.shiftRight_eq_div_pow vaddr, same]

/-- All addresses of a page have it. -/
theorem extractLoop_uniform
    {mem : Nat → Nat → Nat}
    {vaddr other levels table : Nat}
    {mapping : Mapping}
    (inTree : levels ≤ pgtblLvlNr)
    (extracted : extractLoop mem vaddr levels table = .ok mapping)
    (same : other / mapping.pgsize = vaddr / mapping.pgsize) :
    extractLoop mem other levels table = .ok mapping := by
  induction levels generalizing table with
  | zero =>
      cases extracted
  | succ lvl inductionHypothesis =>
      obtain ⟨lower, below, size⟩ := extractLoop_pgsize extracted
      rw [size] at same
      have index :=
        pgtblCalcIndexVal_congr (Nat.lt_succ_iff.mp below) (by omega) same
      have sameWalk :
          walkPgtbl mem table lvl other = walkPgtbl mem table lvl vaddr := by
        rw [walkPgtbl, walkPgtbl, index]
      rw [extractLoop] at extracted ⊢
      rw [sameWalk]
      cases walked : walkPgtbl mem table lvl vaddr with
      | unmapped =>
          rw [walked] at extracted
          cases extracted
      | mapped found =>
          rw [walked] at extracted
          exact extracted
      | next below =>
          rw [walked] at extracted
          exact inductionHypothesis (by omega) extracted

/-- The pages of a page table make an address space. -/
def VmPgtbl.space (pgt : VmPgtbl) : PagedSpace where
  page := fun vaddr =>
    match pgt.extract vaddr with
    | .error _ => none
    | .ok mapping => some { base := mapping.paddr, size := mapping.pgsize }
  positive := by
    intro vaddr page found
    cases extracted : pgt.extract vaddr with
    | error code =>
        rw [extracted] at found
        cases found
    | ok mapping =>
        rw [extracted] at found
        cases found
        obtain ⟨lvl, -, size⟩ := extractLoop_pgsize extracted
        rw [size]
        exact pgtblCalcPagesize_pos lvl
  uniform := by
    intro vaddr other page found same
    cases extracted : pgt.extract vaddr with
    | error code =>
        rw [extracted] at found
        cases found
    | ok mapping =>
        rw [extracted] at found
        cases found
        have found := extractLoop_uniform le_rfl extracted same
        rw [VmPgtbl.extract, halPgtblExtract, found]

section Space

variable {pgt : VmPgtbl}
variable {vaddr : Nat}

theorem VmPgtbl.space_of_ok
    {mapping : Mapping}
    (extracted : pgt.extract vaddr = .ok mapping) :
    pgt.space.page vaddr =
      some { base := mapping.paddr, size := mapping.pgsize } := by
  change (match pgt.extract vaddr with
    | .error _ => none
    | .ok mapping => some (Page.mk mapping.paddr mapping.pgsize)) = _
  rw [extracted]

theorem VmPgtbl.space_of_error
    {code : Errno}
    (extracted : pgt.extract vaddr = .error code) :
    pgt.space.page vaddr = none := by
  change (match pgt.extract vaddr with
    | .error _ => none
    | .ok mapping => some (Page.mk mapping.paddr mapping.pgsize)) = _
  rw [extracted]

/-- An address with a page has a mapping. -/
theorem VmPgtbl.extract_of_page
    {page : Page}
    (inPage : pgt.space.page vaddr = some page) :
    ∃ mapping,
      pgt.extract vaddr = .ok mapping ∧
        mapping.paddr = page.base ∧ mapping.pgsize = page.size := by
  cases extracted : pgt.extract vaddr with
  | error code =>
      rw [space_of_error extracted] at inPage
      cases inPage
  | ok mapping =>
      rw [space_of_ok extracted] at inPage
      cases inPage
      exact ⟨mapping, rfl, rfl, rfl⟩

/-- An address without a page has no mapping. -/
theorem VmPgtbl.extract_of_no_page
    (noPage : pgt.space.page vaddr = none) :
    ∃ code, pgt.extract vaddr = .error code := by
  cases extracted : pgt.extract vaddr with
  | error code =>
      exact ⟨code, rfl⟩
  | ok mapping =>
      rw [space_of_ok extracted] at noPage
      cases noPage

/-- The addresses that a walk tells apart. -/
def sv39Space : Nat := 2 ^ 39

/-- The space is so many tables of pages of a level. -/
theorem sv39Space_eq
    {lvl : Nat}
    (inTree : lvl < pgtblLvlNr) :
    ∃ turns, sv39Space = 2 ^ pgtblIndexShift lvl * (2 ^ 9 * turns) := by
  rw [pgtblLvlNr] at inTree
  refine ⟨2 ^ (9 * (2 - lvl)), ?_⟩
  rw [sv39Space, ← Nat.pow_add, ← Nat.pow_add, pgtblIndexShift, pgtblLvlNr]
  congr 1
  omega

theorem pgtblCalcIndexVal_periodic
    {lvl : Nat}
    (inTree : lvl < pgtblLvlNr) :
    pgtblCalcIndexVal (vaddr + sv39Space) lvl = pgtblCalcIndexVal vaddr lvl := by
  have entries : pgtblEntriesNr - 1 = 2 ^ 9 - 1 := by decide
  obtain ⟨turns, whole⟩ := sv39Space_eq inTree
  rw [pgtblCalcIndexVal, pgtblCalcIndexVal, entries,
    Nat.and_two_pow_sub_one_eq_mod, Nat.and_two_pow_sub_one_eq_mod,
    Nat.shiftRight_eq_div_pow, Nat.shiftRight_eq_div_pow, whole,
    Nat.add_mul_div_left _ _ (Nat.two_pow_pos _), Nat.add_mul_mod_self_left]

theorem extractLoop_periodic
    {mem : Nat → Nat → Nat}
    {levels table : Nat}
    (inTree : levels ≤ pgtblLvlNr) :
    extractLoop mem (vaddr + sv39Space) levels table =
      extractLoop mem vaddr levels table := by
  induction levels generalizing table with
  | zero =>
      simp only [extractLoop]
  | succ lvl inductionHypothesis =>
      have inner := fun below =>
        @inductionHypothesis below (Nat.le_of_succ_le inTree)
      simp only [extractLoop, walkPgtbl,
        pgtblCalcIndexVal_periodic (Nat.lt_of_succ_le inTree), inner]

/-- The byte of an address, if it has a page. -/
def VmPgtbl.byteAt
    (pgt : VmPgtbl)
    (bytes : Bytes)
    (vaddr : Nat) : Option (BitVec 8) :=
  (pgt.space.location vaddr).map bytes

/-- A byte comes again at the next address that the walk does not tell apart. -/
theorem VmPgtbl.byteAt_periodic
    (pgt : VmPgtbl)
    (bytes : Bytes)
    (vaddr : Nat) :
    pgt.byteAt bytes (vaddr + sv39Space) = pgt.byteAt bytes vaddr := by
  have same : pgt.extract (vaddr + sv39Space) = pgt.extract vaddr := by
    simp only [extract, halPgtblExtract, extractLoop_periodic le_rfl]
  rw [byteAt, byteAt]
  cases extracted : pgt.extract vaddr with
  | error code =>
      simp only [PagedSpace.location, space_of_error extracted,
        space_of_error (same.trans extracted), Option.map_none]
  | ok mapping =>
      obtain ⟨lvl, inTree, size⟩ := extractLoop_pgsize extracted
      obtain ⟨turns, whole⟩ := sv39Space_eq inTree
      have power : mapping.pgsize = 2 ^ pgtblIndexShift lvl := by
        rw [size, pgtblCalcPagesize, Nat.shiftLeft_eq, Nat.one_mul]
      rw [PagedSpace.location_of_page (space_of_ok extracted),
        PagedSpace.location_of_page (space_of_ok (same.trans extracted)),
        power, whole, Nat.add_mul_mod_self_left]

/-- The page of an address is one that the database knows. -/
def PageKnown
    (system : VmSystem)
    (pgt vaddr : Nat) : Prop :=
  ∀ page,
    (system.pgtbl pgt).space.page vaddr = some page →
      system.known page.base = true

end Space

/-- Tables 1, 2 and 3 map the first two pages to the frames 16 and 17. -/
def twoPages : VmPgtbl where
  setup :=
    { base := 1
      inherited := fun _ => false
      kernelTables := []
      isPfnValid := fun _ => true }
  tables := fun table idx =>
    match table, idx with
    | 1, 0 => tablePte (2 <<< pageShift)
    | 2, 0 => tablePte (3 <<< pageShift)
    | 3, 0 => leafPte vmProtRead 0 (16 <<< pageShift)
    | 3, 1 => leafPte vmProtRead 0 (17 <<< pageShift)
    | _, _ => 0

/-- A system with this page table only. -/
def twoPageSystem : VmSystem where
  pgtbl := fun _ => twoPages
  isPfnValid := fun _ => true

end RiscvWorkshop.Vm
