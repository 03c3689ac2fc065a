import Mathlib
import RiscvWorkshop.StringCopy

namespace RiscvWorkshop.Klib

/-!
# Finding a string in a string

`strstr` compares the needle at every byte of the haystack that begins like it,
and looks at where the comparison stopped in the needle.
-/

/-- The inner loop of `strstr`, and where it stops in the needle. -/
def strstrCompare (mem : Bytes) : Nat → Nat → Nat → Option Nat
  | 0, _, _ => none
  | steps + 1, cq, cr =>
      if mem cq ≠ 0 ∧ mem cr ≠ 0 then
        if mem cq ≠ mem cr then
          some cr
        else
          strstrCompare mem steps (cq + 1) (cr + 1)
      else
        some cr

/-- The loop of `strstr`; the first number bounds the turns of the inner loop. -/
def strstrLoop
    (mem : Bytes)
    (limit needle : Nat) : Nat → Nat → Option (Option Nat)
  | 0, _ => none
  | steps + 1, haystack =>
      if mem haystack = 0 then
        some none
      else if mem haystack = mem needle then
        match strstrCompare mem limit haystack needle with
        | none => none
        | some cr =>
            if mem cr = 0 then
              some (some haystack)
            else
              strstrLoop mem limit needle steps (haystack + 1)
      else
        strstrLoop mem limit needle steps (haystack + 1)

/-- `strstr`, with a bound on the turns of its loops. -/
def strstr
    (steps : Nat)
    (mem : Bytes)
    (haystack needle : Nat) : Option (Option Nat) :=
  strstrLoop mem steps needle steps haystack

/-- One string begins with another. -/
def BeginsWith
    (mem : Bytes)
    (s len needle needleLen : Nat) : Prop :=
  needleLen ≤ len ∧ ∀ j < needleLen, mem (s + j) = mem (needle + j)

/-- The needle occurs in the haystack at a position. -/
def OccursAt
    (mem : Bytes)
    (haystack len needle needleLen i : Nat) : Prop :=
  i ≤ len ∧ BeginsWith mem (haystack + i) (len - i) needle needleLen

/-- The first position at which the needle occurs, or none if there is none. -/
def FirstOccurrence
    (mem : Bytes)
    (haystack len needle needleLen : Nat) : Option Nat → Prop
  | none => ∀ i, ¬ OccursAt mem haystack len needle needleLen i
  | some place =>
      ∃ i,
        place = haystack + i ∧
          OccursAt mem haystack len needle needleLen i ∧
            ∀ j < i, ¬ OccursAt mem haystack len needle needleLen j

section Search

variable {mem : Bytes}
variable {s haystack len needle needleLen : Nat}

/-- A byte and then the others. -/
theorem beginsWith_succ :
    BeginsWith mem s (len + 1) needle (needleLen + 1) ↔
      mem s = mem needle ∧
        BeginsWith mem (s + 1) len (needle + 1) needleLen := by
  constructor
  · rintro ⟨fits, same⟩
    refine ⟨same 0 (Nat.succ_pos needleLen), Nat.le_of_succ_le_succ fits, ?_⟩
    intro j before
    rw [Nat.add_right_comm, Nat.add_right_comm needle]
    exact same (j + 1) (Nat.succ_lt_succ before)
  · rintro ⟨first, fits, others⟩
    refine ⟨Nat.succ_le_succ fits, fun j before => ?_⟩
    cases j with
    | zero => exact first
    | succ j =>
        have later := others j (Nat.lt_of_succ_lt_succ before)
        rwa [Nat.add_right_comm, Nat.add_right_comm needle] at later

/-- The comparison stops at the null of the needle if the string begins with it. -/
theorem strstrCompare_eq
    {steps : Nat}
    (string : StringAt mem s len)
    (needleString : StringAt mem needle needleLen)
    (enough : needleLen < steps) :
    ∃ cr,
      strstrCompare mem steps s needle = some cr ∧
        (mem cr = 0 ↔ BeginsWith mem s len needle needleLen) := by
  induction steps generalizing s needle len needleLen with
  | zero =>
      cases enough
  | succ steps inductionHypothesis =>
      rw [strstrCompare]
      by_cases needleNull : mem needle = 0
      · refine ⟨needle, if_neg fun both => both.2 needleNull, ?_⟩
        rw [needleString.len_eq_zero needleNull]
        exact iff_of_true needleNull ⟨Nat.zero_le len, nofun⟩
      · obtain ⟨needleRest, rfl, needleTail⟩ := needleString.tail needleNull
        by_cases null : mem s = 0
        · refine ⟨needle, if_neg fun both => both.1 null, ?_⟩
          rw [string.len_eq_zero null]
          exact iff_of_false needleNull fun begins => by cases begins.1
        · obtain ⟨rest, rfl, tail⟩ := string.tail null
          rw [if_pos ⟨null, needleNull⟩, beginsWith_succ]
          by_cases same : mem s = mem needle
          · rw [if_neg (not_not_intro same)]
            obtain ⟨cr, compared, stops⟩ :=
              inductionHypothesis tail needleTail (by omega)
            exact ⟨cr, compared, stops.trans (and_iff_right same).symm⟩
          · exact
              ⟨needle, if_pos same,
                iff_of_false needleNull fun begins => same begins.1⟩

/-- Behind the first byte the positions are one less. -/
theorem occursAt_succ
    {i : Nat} :
    OccursAt mem haystack (len + 1) needle needleLen (i + 1) ↔
      OccursAt mem (haystack + 1) len needle needleLen i := by
  rw [OccursAt, OccursAt, Nat.add_le_add_iff_right, Nat.add_sub_add_right,
    Nat.add_right_comm, ← Nat.add_assoc]

/-- What is found behind a byte is found, if the needle is not at that byte. -/
theorem FirstOccurrence.later
    {result : Option Nat}
    (notHere : ¬ BeginsWith mem haystack (len + 1) needle needleLen)
    (found :
      FirstOccurrence mem (haystack + 1) len needle needleLen result) :
    FirstOccurrence mem haystack (len + 1) needle needleLen result := by
  have notFirst : ¬ OccursAt mem haystack (len + 1) needle needleLen 0 :=
    fun occurs => notHere occurs.2
  cases result with
  | none =>
      intro i
      cases i with
      | zero => exact notFirst
      | succ i => exact occursAt_succ.not.mpr (found i)
  | some place =>
      obtain ⟨i, rfl, occurs, first⟩ := found
      refine ⟨i + 1, by omega, occursAt_succ.mpr occurs, fun j before => ?_⟩
      cases j with
      | zero => exact notFirst
      | succ j =>
          exact occursAt_succ.not.mpr (first j (Nat.lt_of_succ_lt_succ before))

/-- For a needle with a byte the loop comes to its first occurrence. -/
theorem strstrLoop_found
    {limit steps : Nat}
    (string : StringAt mem haystack len)
    (needleString : StringAt mem needle needleLen)
    (some_char : needleLen ≠ 0)
    (enough : needleLen < limit)
    (room : len < steps) :
    ∃ result,
      strstrLoop mem limit needle steps haystack = some result ∧
        FirstOccurrence mem haystack len needle needleLen result := by
  obtain ⟨needleRest, rfl⟩ := Nat.exists_eq_succ_of_ne_zero some_char
  induction steps generalizing haystack len with
  | zero =>
      cases room
  | succ steps inductionHypothesis =>
      rw [strstrLoop]
      by_cases null : mem haystack = 0
      · refine ⟨none, if_pos null, fun i occurs => ?_⟩
        rw [string.len_eq_zero null] at occurs
        have fits := occurs.2.1
        omega
      · obtain ⟨rest, rfl, tail⟩ := string.tail null
        obtain ⟨result, looped, found⟩ :=
          inductionHypothesis tail (Nat.lt_of_succ_lt_succ room)
        obtain ⟨cr, compared, stops⟩ :=
          strstrCompare_eq string needleString enough
        rw [if_neg null, looped, compared]
        by_cases same : mem haystack = mem needle
        · rw [if_pos same]
          by_cases here : mem cr = 0
          · refine ⟨some haystack, if_pos here, 0, rfl, ?_, nofun⟩
            exact ⟨Nat.zero_le _, stops.mp here⟩
          · exact
              ⟨result, if_neg here, found.later (stops.not.mp here)⟩
        · rw [if_neg same]
          refine ⟨result, rfl, found.later fun begins => same ?_⟩
          exact begins.2 0 (Nat.succ_pos needleRest)

/-- An empty needle is not found: its null is no byte of the haystack. -/
theorem strstrLoop_emptyNeedle
    {limit steps : Nat}
    {result : Option Nat}
    (null : mem needle = 0)
    (returned : strstrLoop mem limit needle steps haystack = some result) :
    result = none := by
  induction steps generalizing haystack with
  | zero =>
      cases returned
  | succ steps inductionHypothesis =>
      rw [strstrLoop] at returned
      split at returned
      case isTrue ends =>
        cases returned
        rfl
      case isFalse char =>
        rw [null, if_neg char] at returned
        exact inductionHypothesis returned

/-- `strstr` finds the first occurrence exactly of the needles that are not empty. -/
theorem strstr_finds_iff
    (string : StringAt mem haystack len)
    (needleString : StringAt mem needle needleLen) :
    (∃ steps result,
      strstr steps mem haystack needle = some result ∧
        FirstOccurrence mem haystack len needle needleLen result) ↔
      needleLen ≠ 0 := by
  constructor
  · rintro ⟨steps, result, returned, found⟩ rfl
    rw [strstrLoop_emptyNeedle needleString.ends returned] at found
    exact found 0 ⟨Nat.zero_le len, Nat.zero_le _, nofun⟩
  · intro some_char
    obtain ⟨result, returned, found⟩ :=
      strstrLoop_found string needleString some_char
        (show needleLen < len + needleLen + 1 by omega)
        (show len < len + needleLen + 1 by omega)
    exact ⟨len + needleLen + 1, result, returned, found⟩

end Search

/-- The string "a" is found in itself. -/
theorem strstr_finds_letter :
    ∃ steps result,
      strstr steps letterAt8 8 8 = some result ∧
        FirstOccurrence letterAt8 8 1 8 1 result :=
  (strstr_finds_iff letterAt8_string letterAt8_string).mpr (by decide)

/-- The empty string is not found in "a". -/
theorem strstr_misses_empty :
    strstr 2 letterAt8 8 0 = some none ∧
      ¬ ∃ steps result,
        strstr steps letterAt8 8 0 = some result ∧
          FirstOccurrence letterAt8 8 1 0 0 result := by
  refine ⟨by decide, ?_⟩
  rintro ⟨steps, result, returned, found⟩
  rw [strstrLoop_emptyNeedle letterAt8_empty.ends returned] at found
  exact found 0 ⟨by decide, by decide, nofun⟩

end RiscvWorkshop.Klib
