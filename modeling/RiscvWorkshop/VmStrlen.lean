import Mathlib
import RiscvWorkshop.VmCopy

namespace RiscvWorkshop.Vm

open Pgtbl

/-!
# The length of a string

The outer loop of `vm_strlen` goes on at the next byte, not at the next page,
and counts what is left of the page of each byte that it passes.
-/

/-- A string that ends at a null, or at an address without a page. -/
structure StringAt
    (system : VmSystem)
    (bytes : Bytes)
    (pgt s n : Nat)
    (terminated : Bool) : Prop where
  chars :
    ∀ i < n, ∃ char,
      (system.pgtbl pgt).byteAt bytes (s + i) = some char ∧ char ≠ 0
  ends :
    (system.pgtbl pgt).byteAt bytes (s + n) =
      if terminated then some 0 else none

/-- The bytes of a string that are not in the page of its end. -/
def bytesBefore
    (system : VmSystem)
    (pgt s n : Nat) : Nat :=
  match (system.pgtbl pgt).space.page (s + n) with
  | none => n
  | some page => n - (s + n) % page.size

/-- For each of these bytes, the bytes that follow it in its page. -/
def recounted
    (system : VmSystem)
    (pgt s n : Nat) : Nat :=
  ∑ i ∈ Finset.range (bytesBefore system pgt s n),
    ((system.pgtbl pgt).space.room (s + i) - 1)

/-- `vm_strlen` has the length of a string, or 0 for one without an end. -/
def StrlenRight
    (system : VmSystem)
    (bytes : Bytes)
    (pgt s n : Nat)
    (terminated : Bool) : Prop :=
  ∀ locked, ∃ rounds,
    vmStrlen system bytes locked rounds pgt s =
      match locked pgt with
      | .error _ => some (0, [])
      | .ok () =>
          some (if terminated then n else 0, [.lock pgt, .unlock pgt])

section Strlen

variable {system : VmSystem}
variable {bytes : Bytes}
variable {pgt s n : Nat}
variable {terminated : Bool}

/-- The inner loop counts a page without a null. -/
theorem findNull_of_forall
    {remain sKmem curLen : Nat}
    (inWord : curLen < addressSpace)
    (noNull : ∀ i < remain, bytes (sKmem + i) ≠ 0) :
    findNull bytes remain sKmem curLen =
      (false, (curLen + remain) % addressSpace) := by
  induction remain generalizing sKmem curLen with
  | zero =>
      rw [findNull, Nat.add_zero, Nat.mod_eq_of_lt inWord]
  | succ remain inductionHypothesis =>
      have first := noNull 0 (Nat.succ_pos remain)
      have later : ∀ i < remain, bytes (sKmem + 1 + i) ≠ 0 := by
        intro i before
        have next := noNull (i + 1) (Nat.succ_lt_succ before)
        rwa [show sKmem + (i + 1) = sKmem + 1 + i by omega] at next
      rw [findNull, if_neg (by simpa using first),
        inductionHypothesis (Nat.mod_lt _ (by decide)) later,
        Nat.mod_add_mod, show curLen + 1 + remain = curLen + (remain + 1) by
          omega]

/-- The inner loop counts the bytes before the first null of a page. -/
theorem findNull_of_null
    {remain sKmem curLen place : Nat}
    (inWord : curLen < addressSpace)
    (inRoom : place < remain)
    (noNull : ∀ i < place, bytes (sKmem + i) ≠ 0)
    (null : bytes (sKmem + place) = 0) :
    findNull bytes remain sKmem curLen =
      (true, (curLen + place) % addressSpace) := by
  induction place generalizing remain sKmem curLen with
  | zero =>
      obtain ⟨rest, rfl⟩ := Nat.exists_eq_succ_of_ne_zero inRoom.ne'
      rw [findNull, if_pos (by simpa using null), Nat.add_zero,
        Nat.mod_eq_of_lt inWord]
  | succ place inductionHypothesis =>
      obtain ⟨rest, rfl⟩ :=
        Nat.exists_eq_succ_of_ne_zero (Nat.ne_zero_of_lt inRoom)
      have first := noNull 0 (Nat.succ_pos place)
      have later : ∀ i < place, bytes (sKmem + 1 + i) ≠ 0 := by
        intro i before
        have next := noNull (i + 1) (Nat.succ_lt_succ before)
        rwa [show sKmem + (i + 1) = sKmem + 1 + i by omega] at next
      have atPlace : bytes (sKmem + 1 + place) = 0 := by
        rwa [show sKmem + 1 + place = sKmem + (place + 1) by omega]
      rw [findNull, if_neg (by simpa using first),
        inductionHypothesis (Nat.mod_lt _ (by decide))
          (Nat.lt_of_succ_lt_succ inRoom) later atPlace,
        Nat.mod_add_mod, show curLen + 1 + place = curLen + (place + 1) by
          omega]

/-- A byte of the page of an address. -/
theorem byteAt_add
    {vaddr i : Nat}
    {page : Page}
    (inPage : (system.pgtbl pgt).space.page vaddr = some page)
    (inRoom : i < (system.pgtbl pgt).space.room vaddr) :
    (system.pgtbl pgt).byteAt bytes (vaddr + i) =
      some (bytes (page.base + vaddr % page.size + i)) := by
  rw [VmPgtbl.byteAt, PagedSpace.location_add inPage inRoom]
  rfl

/-- A byte of the string has a page. -/
theorem StringAt.page
    {i : Nat}
    (string : StringAt system bytes pgt s n terminated)
    (before : i < n) :
    ∃ page, (system.pgtbl pgt).space.page (s + i) = some page := by
  obtain ⟨char, atPlace, -⟩ := string.chars i before
  rw [VmPgtbl.byteAt, PagedSpace.location] at atPlace
  cases inPage : (system.pgtbl pgt).space.page (s + i) with
  | none =>
      rw [inPage] at atPlace
      cases atPlace
  | some page =>
      exact ⟨page, rfl⟩

theorem bytesBefore_le :
    bytesBefore system pgt s n ≤ n := by
  rw [bytesBefore]
  split <;> omega

/-- The page of a byte before the page of the end has no end. -/
theorem StringAt.room_le
    {i : Nat}
    (string : StringAt system bytes pgt s n terminated)
    (before : i < bytesBefore system pgt s n) :
    i + (system.pgtbl pgt).space.room (s + i) ≤ n := by
  by_contra beyond
  have inString : i < n := before.trans_le bytesBefore_le
  obtain ⟨page, inPage⟩ := string.page inString
  have inRoom : n - i < (system.pgtbl pgt).space.room (s + i) := by omega
  have endPage := PagedSpace.page_add inPage inRoom
  have offset := PagedSpace.mod_add inPage inRoom
  rw [show s + i + (n - i) = s + n by omega] at endPage offset
  rw [bytesBefore, endPage] at before
  simp only at before
  omega

/-- A null is in the room of the first byte of the string in its page. -/
theorem StringAt.null_page
    (string : StringAt system bytes pgt s n true) :
    ∃ page,
      (system.pgtbl pgt).space.page (s + bytesBefore system pgt s n) =
          some page ∧
        n - bytesBefore system pgt s n <
          (system.pgtbl pgt).space.room
            (s + bytesBefore system pgt s n) := by
  cases endPage : (system.pgtbl pgt).space.page (s + n) with
  | none =>
      have null := string.ends
      rw [VmPgtbl.byteAt, PagedSpace.location, endPage] at null
      cases null
  | some page =>
      refine ⟨page, ?_⟩
      have shape :
          s + n =
            s + bytesBefore system pgt s n +
              (n - bytesBefore system pgt s n) := by
        have below : bytesBefore system pgt s n ≤ n := bytesBefore_le
        omega
      refine PagedSpace.page_sub (by rw [← shape]; exact endPage) ?_
      rw [← shape, bytesBefore, endPage]
      simp only
      omega

/-- A round at a byte before the page of the end. -/
theorem StringAt.round
    {i rounds curLen : Nat}
    (string : StringAt system bytes pgt s n terminated)
    (before : i < bytesBefore system pgt s n)
    (inWord : curLen < addressSpace)
    (known : PageKnown system pgt (s + i)) :
    strlenLoop system bytes pgt (rounds + 1) (s + i) curLen =
      strlenLoop system bytes pgt rounds (s + (i + 1))
        ((curLen + (system.pgtbl pgt).space.room (s + i)) % addressSpace) := by
  obtain ⟨page, inPage⟩ := string.page (before.trans_le bytesBefore_le)
  obtain ⟨mapping, extracted, base, size⟩ := VmPgtbl.extract_of_page inPage
  have room := PagedSpace.room_of_page inPage
  have ends := string.room_le before
  have noNull :
      ∀ j < page.size - (s + i) % page.size,
        bytes (page.base + (s + i) % page.size + j) ≠ 0 := by
    intro j inRoom
    rw [← room] at inRoom
    obtain ⟨char, atPlace, nonzero⟩ := string.chars (i + j) (by omega)
    rw [show s + (i + j) = s + i + j by omega, byteAt_add inPage inRoom]
      at atPlace
    cases atPlace
    exact nonzero
  rw [strlenLoop, extracted]
  simp only [base, size, known page inPage, if_true,
    findNull_of_forall inWord noNull, room, Nat.add_assoc]

/-- The round at the page of the null, or at the address without a page. -/
theorem StringAt.lastRound
    {curLen : Nat}
    (string : StringAt system bytes pgt s n terminated)
    (inWord : curLen < addressSpace)
    (known : PageKnown system pgt (s + bytesBefore system pgt s n))
    (rounds : Nat) :
    strlenLoop system bytes pgt (rounds + 1)
        (s + bytesBefore system pgt s n) curLen =
      some
        (if terminated then
          (curLen + (n - bytesBefore system pgt s n)) % addressSpace
        else 0) := by
  cases terminated with
  | false =>
      have noByte := string.ends
      rw [if_neg (by decide), VmPgtbl.byteAt, Option.map_eq_none_iff,
        PagedSpace.location, Option.map_eq_none_iff] at noByte
      have atEnd : bytesBefore system pgt s n = n := by
        rw [bytesBefore, noByte]
      obtain ⟨code, extracted⟩ := VmPgtbl.extract_of_no_page noByte
      rw [strlenLoop, atEnd, extracted]
      rfl
  | true =>
      obtain ⟨page, inPage, inRoom⟩ := string.null_page
      obtain ⟨mapping, extracted, base, size⟩ :=
        VmPgtbl.extract_of_page inPage
      have room := PagedSpace.room_of_page inPage
      have below : bytesBefore system pgt s n ≤ n := bytesBefore_le
      have null := string.ends
      rw [if_pos rfl,
        show s + n =
            s + bytesBefore system pgt s n +
              (n - bytesBefore system pgt s n) by omega,
        byteAt_add inPage inRoom, Option.some.injEq] at null
      have noNull :
          ∀ j < n - bytesBefore system pgt s n,
            bytes
                (page.base +
                    (s + bytesBefore system pgt s n) % page.size + j) ≠
              0 := by
        intro j before
        obtain ⟨char, atPlace, nonzero⟩ :=
          string.chars (bytesBefore system pgt s n + j) (by omega)
        rw [← Nat.add_assoc, byteAt_add inPage (by omega)] at atPlace
        cases atPlace
        exact nonzero
      rw [room] at inRoom
      rw [strlenLoop, extracted]
      simp only [base, size, known page inPage, if_true,
        findNull_of_null inWord inRoom noNull null]

/-- A page that the database does not know stops the loop. -/
theorem strlenLoop_of_unknown
    {vaddr : Nat}
    (unknown : ¬ PageKnown system pgt vaddr)
    (rounds curLen : Nat) :
    strlenLoop system bytes pgt rounds vaddr curLen = none := by
  cases rounds with
  | zero =>
      rfl
  | succ rounds =>
      simp only [PageKnown, not_forall] at unknown
      obtain ⟨page, inPage, notKnown⟩ := unknown
      obtain ⟨mapping, extracted, base, -⟩ := VmPgtbl.extract_of_page inPage
      rw [strlenLoop, extracted]
      simp only [base, notKnown, Bool.false_eq_true, if_false]

/-- From a byte on, the loop ends where it knows the pages, with this length. -/
theorem StringAt.strlenLoop_iff
    {i curLen : Nat}
    (string : StringAt system bytes pgt s n terminated)
    (inside : i ≤ bytesBefore system pgt s n)
    (inWord : curLen < addressSpace)
    (result : Nat) :
    (∃ rounds,
        strlenLoop system bytes pgt rounds (s + i) curLen = some result) ↔
      (∀ j, i ≤ j → j ≤ bytesBefore system pgt s n →
        PageKnown system pgt (s + j)) ∧
        result =
          if terminated then
            (curLen +
                ∑ j ∈ Finset.Ico i (bytesBefore system pgt s n),
                  (system.pgtbl pgt).space.room (s + j) +
                (n - bytesBefore system pgt s n)) % addressSpace
          else 0 := by
  obtain ⟨left, isLeft⟩ := Nat.exists_eq_add_of_le inside
  induction left generalizing i curLen with
  | zero =>
      obtain rfl : i = bytesBefore system pgt s n := by omega
      rw [Finset.Ico_self, Finset.sum_empty, Nat.add_zero]
      by_cases known : PageKnown system pgt (s + bytesBefore system pgt s n)
      · constructor
        · rintro ⟨rounds, ended⟩
          refine ⟨fun j first last => ?_, ?_⟩
          · rw [Nat.le_antisymm last first]
            exact known
          · cases rounds with
            | zero =>
                cases ended
            | succ rounds =>
                rw [string.lastRound inWord known] at ended
                exact (Option.some.inj ended).symm
        · rintro ⟨-, rfl⟩
          exact ⟨1, string.lastRound inWord known 0⟩
      · constructor
        · rintro ⟨rounds, ended⟩
          rw [strlenLoop_of_unknown known] at ended
          cases ended
        · rintro ⟨allKnown, -⟩
          exact absurd (allKnown _ le_rfl le_rfl) known
  | succ left inductionHypothesis =>
      have before : i < bytesBefore system pgt s n := by omega
      rw [Finset.sum_eq_sum_Ico_succ_bot before]
      by_cases known : PageKnown system pgt (s + i)
      · have later :=
          inductionHypothesis before
            (Nat.mod_lt
              (curLen + (system.pgtbl pgt).space.room (s + i))
              (show 0 < addressSpace by decide))
            (by omega)
        have sameSum :
            ((curLen + (system.pgtbl pgt).space.room (s + i)) % addressSpace +
                  ∑ j ∈ Finset.Ico (i + 1) (bytesBefore system pgt s n),
                    (system.pgtbl pgt).space.room (s + j) +
                (n - bytesBefore system pgt s n)) % addressSpace =
              (curLen +
                  ((system.pgtbl pgt).space.room (s + i) +
                    ∑ j ∈ Finset.Ico (i + 1) (bytesBefore system pgt s n),
                      (system.pgtbl pgt).space.room (s + j)) +
                (n - bytesBefore system pgt s n)) % addressSpace := by
          rw [Nat.add_assoc, Nat.mod_add_mod]
          congr 1
          omega
        rw [sameSum] at later
        have allKnown :
            (∀ j, i ≤ j → j ≤ bytesBefore system pgt s n →
                PageKnown system pgt (s + j)) ↔
              ∀ j, i + 1 ≤ j → j ≤ bytesBefore system pgt s n →
                PageKnown system pgt (s + j) := by
          constructor
          · intro all j first last
            exact all j (by omega) last
          · intro all j first last
            rcases Nat.eq_or_lt_of_le first with rfl | after
            · exact known
            · exact all j after last
        rw [allKnown, ← later]
        constructor
        · rintro ⟨rounds, ended⟩
          cases rounds with
          | zero =>
              cases ended
          | succ rounds =>
              rw [string.round before inWord known] at ended
              exact ⟨rounds, ended⟩
        · rintro ⟨rounds, ended⟩
          exact ⟨rounds + 1, by
            rw [string.round before inWord known]
            exact ended⟩
      · constructor
        · rintro ⟨rounds, ended⟩
          rw [strlenLoop_of_unknown known] at ended
          cases ended
        · rintro ⟨allKnown, -⟩
          exact absurd (allKnown i le_rfl inside) known

/-- A string is shorter than the space that the walk tells apart. -/
theorem StringAt.length_lt
    (string : StringAt system bytes pgt s n terminated) :
    n < addressSpace := by
  by_contra long
  have room : sv39Space ≤ n := by
    have small : sv39Space ≤ addressSpace := by decide
    omega
  have positive : 0 < sv39Space := by decide
  obtain ⟨char, atPlace, nonzero⟩ := string.chars (n - sv39Space) (by omega)
  have again :=
    VmPgtbl.byteAt_periodic (system.pgtbl pgt) bytes (s + (n - sv39Space))
  rw [show s + (n - sv39Space) + sv39Space = s + n by omega, string.ends,
    atPlace] at again
  cases terminated with
  | false =>
      cases again
  | true =>
      cases again
      exact nonzero rfl

/-- Each byte before the page of the end counts once, and is recounted. -/
theorem StringAt.sum_room
    (string : StringAt system bytes pgt s n terminated) :
    ∑ j ∈ Finset.Ico 0 (bytesBefore system pgt s n),
        (system.pgtbl pgt).space.room (s + j) =
      recounted system pgt s n + bytesBefore system pgt s n := by
  rw [recounted, ← Finset.range_eq_Ico]
  have once :
      bytesBefore system pgt s n =
        ∑ _j ∈ Finset.range (bytesBefore system pgt s n), 1 := by
    rw [Finset.sum_const, Finset.card_range, smul_eq_mul, Nat.mul_one]
  calc
    ∑ j ∈ Finset.range (bytesBefore system pgt s n),
        (system.pgtbl pgt).space.room (s + j) =
      ∑ j ∈ Finset.range (bytesBefore system pgt s n),
        ((system.pgtbl pgt).space.room (s + j) - 1 + 1) := by
      refine Finset.sum_congr rfl fun j member => ?_
      have before := Finset.mem_range.mp member
      obtain ⟨page, inPage⟩ := string.page (before.trans_le bytesBefore_le)
      have positive := PagedSpace.room_pos inPage
      omega
    _ = recounted system pgt s n + bytesBefore system pgt s n := by
      rw [Finset.sum_add_distrib, ← once, recounted]

/-- The pages of a string are known when those of its loop are. -/
theorem StringAt.pagesKnown_iff
    (string : StringAt system bytes pgt s n terminated) :
    (∀ i ≤ n, PageKnown system pgt (s + i)) ↔
      ∀ j ≤ bytesBefore system pgt s n, PageKnown system pgt (s + j) := by
  constructor
  · intro known j inside
    exact known j (inside.trans bytesBefore_le)
  · intro known i inside
    rcases Nat.lt_or_ge (bytesBefore system pgt s n) i with after | before
    · cases terminated with
      | false =>
          have noByte := string.ends
          rw [if_neg (by decide), VmPgtbl.byteAt, Option.map_eq_none_iff,
            PagedSpace.location, Option.map_eq_none_iff] at noByte
          rw [bytesBefore, noByte] at after
          simp only at after
          omega
      | true =>
          obtain ⟨page, inPage, inRoom⟩ := string.null_page
          intro other otherPage
          have same :=
            PagedSpace.page_add inPage
              (show i - bytesBefore system pgt s n < _ by omega)
          rw [show s + bytesBefore system pgt s n +
              (i - bytesBefore system pgt s n) = s + i by omega,
            otherPage] at same
          cases same
          exact known _ le_rfl _ inPage
    · exact known i before

end Strlen

/-- The second byte of the second page is a null, no other one is. -/
def nullInSecond : Bytes :=
  fun paddr => if paddr = (17 <<< pageShift) + 1 then 0 else 1

/-- A string from an address near the end of the first page to the null. -/
theorem stringAt_nullInSecond
    {s n : Nat}
    (short : n ≤ 3)
    (ends : s + n = pageSize + 1) :
    StringAt twoPageSystem nullInSecond 0 s n true := by
  have place : s = pageSize + 1 - n := by omega
  subst place
  rw [pageSize, pageShift] at *
  interval_cases n
  · exact ⟨fun i before => by omega, by decide +kernel⟩
  · refine ⟨fun i before => ⟨1, ?_, by decide⟩, by decide +kernel⟩
    interval_cases i
    decide +kernel
  · refine ⟨fun i before => ⟨1, ?_, by decide⟩, by decide +kernel⟩
    interval_cases i <;> decide +kernel
  · refine ⟨fun i before => ⟨1, ?_, by decide⟩, by decide +kernel⟩
    interval_cases i <;> decide +kernel

end RiscvWorkshop.Vm
