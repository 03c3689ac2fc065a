import Mathlib
import RiscvWorkshop.KernelBase

namespace RiscvWorkshop.Pgtbl

/-!
# Page table entries

The bit layout of an entry, in the masks and shifts of the header, and what
the attribute conversions and the address conversions recover from an entry
that was built for a page or for a table.
-/

/-- `VM_PROT_READ`, `VM_PROT_WRITE` and `VM_PROT_EXECUTE`. -/
def vmProtRead : Nat := 1
def vmProtWrite : Nat := 2
def vmProtExecute : Nat := 4

/-- The map attributes that an entry holds, and the one for unmanaged memory. -/
def vmFlagsUnmanaged : Nat := 0x200
def vmFlagsSupervisor : Nat := 0x800
def vmFlagsDirty : Nat := 0x10000
def vmFlagsAccessed : Nat := 0x20000

/-- The protection bits and the map attributes that an entry records. -/
def vmProtMask : Nat := vmProtRead ||| vmProtWrite ||| vmProtExecute
def vmFlagsPteMask : Nat :=
  vmFlagsSupervisor ||| vmFlagsAccessed ||| vmFlagsDirty

/-- `RV64_PTE_V` and the other attribute bits of an entry. -/
def pteV : Nat := 1 <<< 0
def pteR : Nat := 1 <<< 1
def pteW : Nat := 1 <<< 2
def pteX : Nat := 1 <<< 3
def pteU : Nat := 1 <<< 4
def pteG : Nat := 1 <<< 5
def pteA : Nat := 1 <<< 6
def pteD : Nat := 1 <<< 7

/-- `PV64_PTE_FLAGS_MASK`. -/
def pteFlagsMask : Nat :=
  pteV ||| pteR ||| pteW ||| pteX ||| pteU ||| pteG ||| pteA ||| pteD

/-- `RV64_PTE_PGTBL_FLAGS`: the attributes of an entry that refers to a table. -/
def ptePgtblFlags : Nat := pteA ||| pteD

/-- `RV64_PPN_MASK`: the forty-four bits of a physical page number. -/
def ppnMask : Nat := 2 ^ 44 - 1

/-- `RV64_PTE_PA_SHIFT`: the position of the page number in an entry. -/
def ptePaShift : Nat := 10

/-- `RV64_PTE_PADDR_TO_PPN`. -/
def ptePaddrToPpn (paddr : Nat) : Nat :=
  (ppnMask &&& (paddr >>> pageShift)) <<< ptePaShift

/-- The page frame number that an entry refers to. -/
def pteToPfn (pte : Nat) : Nat :=
  ppnMask &&& (pte >>> ptePaShift)

/-- `RV64_PTE_TO_PADDR`. -/
def pteToPaddr (pte : Nat) : Nat :=
  pteToPfn pte <<< pageShift

/-- `RV64_PTE_FLAGS`. -/
def pteFlags (pte : Nat) : Nat :=
  pte &&& pteFlagsMask

/-- `RV64_PTE_IS_VALID`. -/
def pteIsValid (pte : Nat) : Bool :=
  pteFlags pte &&& pteV != 0

/-- `RV64_PTE_IS_LEAF`. -/
def pteIsLeaf (pte : Nat) : Bool :=
  pteFlags pte &&& (pteR ||| pteW ||| pteX) != 0

/-- `vmprot_and_vmflags_to_pte`. -/
def vmprotAndVmflagsToPte (prot flags : Nat) : Nat :=
  let pte := 0
  let pte := if prot &&& vmProtRead ≠ 0 then pte ||| pteR else pte
  let pte := if prot &&& vmProtWrite ≠ 0 then pte ||| pteW else pte
  let pte := if prot &&& vmProtExecute ≠ 0 then pte ||| pteX else pte
  let pte := if flags &&& vmFlagsSupervisor = 0 then pte ||| pteU else pte
  let pte := if flags &&& vmFlagsAccessed ≠ 0 then pte ||| pteA else pte
  let pte := if flags &&& vmFlagsDirty ≠ 0 then pte ||| pteD else pte
  pte

/-- `pte_to_vmprot_and_vmflags`. -/
def pteToVmprotAndVmflags (pte : Nat) : Nat × Nat :=
  if pteIsValid pte then
    let prot := 0
    let prot := if pteFlags pte &&& pteR ≠ 0 then prot ||| vmProtRead else prot
    let prot := if pteFlags pte &&& pteW ≠ 0 then prot ||| vmProtWrite else prot
    let prot :=
      if pteFlags pte &&& pteX ≠ 0 then prot ||| vmProtExecute else prot
    let flags := 0
    let flags :=
      if pteFlags pte &&& pteU = 0 then flags ||| vmFlagsSupervisor else flags
    let flags :=
      if pteFlags pte &&& pteA ≠ 0 then flags ||| vmFlagsAccessed else flags
    let flags :=
      if pteFlags pte &&& pteD ≠ 0 then flags ||| vmFlagsDirty else flags
    (prot, flags)
  else
    (0, 0)

/-- The entry that maps a page. -/
def leafPte (prot flags paddr : Nat) : Nat :=
  vmprotAndVmflagsToPte prot flags ||| (pteV ||| ptePaddrToPpn paddr)

/-- The entry that refers to the table at a physical address. -/
def tablePte (paddr : Nat) : Nat :=
  pteV ||| ptePgtblFlags ||| ptePaddrToPpn paddr

/-! ## What an entry decodes to -/

/-- An entry read as an attribute byte below a page number. -/
theorem pte_split
    {attributes pfn : Nat}
    (small : attributes < 2 ^ 8)
    (bound : pfn < 2 ^ 44) :
    pteFlags (attributes ||| pfn <<< ptePaShift) = attributes ∧
      pteToPfn (attributes ||| pfn <<< ptePaShift) = pfn := by
  have wide : attributes < 2 ^ ptePaShift :=
    small.trans (by decide)
  have sum :
      attributes ||| pfn <<< ptePaShift =
        attributes + pfn * 2 ^ ptePaShift := by
    rw [Nat.or_comm, ← Nat.shiftLeft_add_eq_or_of_lt wide, Nat.shiftLeft_eq,
      Nat.add_comm]
  have flagsMask : pteFlagsMask = 2 ^ 8 - 1 := by decide
  rw [sum]
  constructor
  · rw [pteFlags, flagsMask, Nat.and_two_pow_sub_one_eq_mod, ptePaShift]
    omega
  · rw [pteToPfn, ppnMask, Nat.and_comm, Nat.and_two_pow_sub_one_eq_mod,
      Nat.shiftRight_eq_div_pow, ptePaShift]
    rw [ptePaShift] at wide
    omega

/-- A masked page number has forty-four bits. -/
theorem ppnMask_and_lt
    (value : Nat) :
    ppnMask &&& value < 2 ^ 44 := by
  rw [ppnMask, Nat.and_comm, Nat.and_two_pow_sub_one_eq_mod]
  exact Nat.mod_lt _ (by decide)

/-- The mask keeps the page number of an address below the physical width. -/
theorem ppnMask_and_eq
    {paddr : Nat}
    (bound : paddr < 2 ^ 56) :
    ppnMask &&& (paddr >>> pageShift) = paddr >>> pageShift := by
  have small : paddr >>> pageShift < 2 ^ 44 := by
    rw [Nat.shiftRight_eq_div_pow, pageShift]
    omega
  rw [ppnMask, Nat.and_comm, Nat.and_two_pow_sub_one_eq_mod,
    Nat.mod_eq_of_lt small]

/-- The attributes of a map request fit the attribute byte and leave V clear. -/
theorem vmprotAndVmflagsToPte_lt
    (prot flags : Nat) :
    pteV ||| vmprotAndVmflagsToPte prot flags < 2 ^ 8 := by
  unfold vmprotAndVmflagsToPte
  split_ifs <;> decide

theorem leafPte_fields
    (prot flags paddr : Nat) :
    pteFlags (leafPte prot flags paddr) =
        pteV ||| vmprotAndVmflagsToPte prot flags ∧
      pteToPfn (leafPte prot flags paddr) =
        ppnMask &&& (paddr >>> pageShift) := by
  have shape :
      leafPte prot flags paddr =
        (pteV ||| vmprotAndVmflagsToPte prot flags) |||
          (ppnMask &&& (paddr >>> pageShift)) <<< ptePaShift := by
    rw [leafPte, ptePaddrToPpn, ← Nat.or_assoc, Nat.or_comm _ pteV]
  rw [shape]
  exact pte_split (vmprotAndVmflagsToPte_lt prot flags) (ppnMask_and_lt _)

/-- An entry for a table is valid, no leaf, and refers to the table. -/
theorem tablePte_fields
    {pfn : Nat}
    (bound : pfn < 2 ^ 44) :
    pteIsValid (tablePte (pfn <<< pageShift)) = true ∧
      pteIsLeaf (tablePte (pfn <<< pageShift)) = false ∧
      pteToPfn (tablePte (pfn <<< pageShift)) = pfn := by
  have addressBound : pfn <<< pageShift < 2 ^ 56 := by
    rw [Nat.shiftLeft_eq, pageShift]
    omega
  have ppn := ppnMask_and_eq addressBound
  rw [Nat.shiftLeft_shiftRight] at ppn
  obtain ⟨flags, frame⟩ :=
    pte_split (show pteV ||| ptePgtblFlags < 2 ^ 8 by decide) bound
  rw [tablePte, ptePaddrToPpn, Nat.shiftLeft_shiftRight, ppn]
  refine ⟨?_, ?_, frame⟩
  · rw [pteIsValid, flags]
    decide
  · rw [pteIsLeaf, flags]
    decide

/-- A bit test sees one bit or nothing. -/
theorem and_two_pow_cases
    (value bit : Nat) :
    value &&& 2 ^ bit = 0 ∨ value &&& 2 ^ bit = 2 ^ bit := by
  rw [Nat.and_two_pow]
  cases value.testBit bit <;> simp

/-- The six bits of a request that its entry records, one by one. -/
private theorem requestBits
    (prot flags : Nat) :
    (prot &&& vmProtRead = 0 ∨ prot &&& vmProtRead = vmProtRead) ∧
      (prot &&& vmProtWrite = 0 ∨ prot &&& vmProtWrite = vmProtWrite) ∧
      (prot &&& vmProtExecute = 0 ∨
        prot &&& vmProtExecute = vmProtExecute) ∧
      (flags &&& vmFlagsSupervisor = 0 ∨
        flags &&& vmFlagsSupervisor = vmFlagsSupervisor) ∧
      (flags &&& vmFlagsAccessed = 0 ∨
        flags &&& vmFlagsAccessed = vmFlagsAccessed) ∧
      (flags &&& vmFlagsDirty = 0 ∨ flags &&& vmFlagsDirty = vmFlagsDirty) :=
  ⟨and_two_pow_cases prot 0, and_two_pow_cases prot 1,
    and_two_pow_cases prot 2, and_two_pow_cases flags 11,
    and_two_pow_cases flags 17, and_two_pow_cases flags 16⟩

/-- The entry of a page is valid, and records the requested attributes. -/
theorem leafPte_attributes
    (prot flags paddr : Nat) :
    pteIsValid (leafPte prot flags paddr) = true ∧
      (pteIsLeaf (leafPte prot flags paddr) = true ↔
        prot &&& vmProtMask ≠ 0) ∧
      pteToVmprotAndVmflags (leafPte prot flags paddr) =
        (prot &&& vmProtMask, flags &&& vmFlagsPteMask) := by
  have fields := (leafPte_fields prot flags paddr).1
  simp only [pteToVmprotAndVmflags, pteIsValid, pteIsLeaf, fields,
    vmprotAndVmflagsToPte, vmProtMask, vmFlagsPteMask,
    Nat.and_or_distrib_left prot, Nat.and_or_distrib_left flags]
  obtain ⟨read, write, execute, supervisor, accessed, dirty⟩ :=
    requestBits prot flags
  rcases read with read | read <;> rcases write with write | write <;>
    rcases execute with execute | execute <;>
    rcases supervisor with supervisor | supervisor <;>
    rcases accessed with accessed | accessed <;>
    rcases dirty with dirty | dirty <;>
    simp only [read, write, execute, supervisor, accessed, dirty] <;>
    decide

end RiscvWorkshop.Pgtbl
