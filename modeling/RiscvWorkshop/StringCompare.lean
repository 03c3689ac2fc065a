import Mathlib
import RiscvWorkshop.StringCopy

namespace RiscvWorkshop.Klib

/-!
# Comparing strings

`memcmp`, `strncmp` and `strncasecmp` keep the difference of two bytes in a
signed byte.  A byte of a string is an unsigned number here, as `char` is on
this machine.
-/

/-- What a signed byte keeps of a number. -/
def signedChar (number : Int) : Int :=
  (BitVec.ofInt 8 number).toInt

/-- The difference of two bytes. -/
def charDiff (first second : BitVec 8) : Int :=
  (first.toNat : Int) - second.toNat

/-- `islower`. -/
def islower (c : BitVec 8) : Bool :=
  97 ≤ c.toNat && c.toNat ≤ 122

/-- `toupper`. -/
def toupper (c : BitVec 8) : BitVec 8 :=
  if islower c then c &&& 0x5f else c

/-- `memcmp`. -/
def memcmp (mem : Bytes) : Nat → Nat → Nat → Int
  | 0, _, _ => 0
  | count + 1, s1, s2 =>
      let rc := signedChar (charDiff (mem s1) (mem s2))
      if rc ≠ 0 then rc else memcmp mem count (s1 + 1) (s2 + 1)

/-- The loop of `strncmp` and `strncasecmp`, with the value that it starts with. -/
def compareLoop
    (conv : BitVec 8 → BitVec 8)
    (mem : Bytes) : Nat → Int → Nat → Nat → Int
  | 0, rc, _, _ => rc
  | n + 1, rc, s1, s2 =>
      if mem s1 = 0 then
        rc
      else
        let rc := signedChar (charDiff (conv (mem s1)) (conv (mem s2)))
        if rc ≠ 0 then rc else compareLoop conv mem n rc (s1 + 1) (s2 + 1)

/-- A comparison of up to `n` characters. -/
def compareStrings
    (conv : BitVec 8 → BitVec 8)
    (mem : Bytes)
    (s1 s2 n : Nat) : Int :=
  compareLoop conv mem n (if mem s2 = 0 then 0 else -1) s1 s2

/-- `strncmp`. -/
def strncmp
    (mem : Bytes)
    (s1 s2 n : Nat) : Int :=
  compareStrings id mem s1 s2 n

/-- `strncasecmp`. -/
def strncasecmp
    (mem : Bytes)
    (s1 s2 n : Nat) : Int :=
  compareStrings toupper mem s1 s2 n

/-- `strcmp`; the first number bounds the turns of its loop. -/
def strcmp (mem : Bytes) : Nat → Nat → Nat → Option Int
  | 0, _, _ => none
  | steps + 1, s1, s2 =>
      if mem s1 ≠ 0 ∧ mem s1 = mem s2 then
        strcmp mem steps (s1 + 1) (s2 + 1)
      else
        some (charDiff (mem s1) (mem s2))

/-! ## What is compared -/

/-- The bytes of a range, as numbers. -/
def rangeBytes (mem : Bytes) : Nat → Nat → List Nat
  | 0, _ => []
  | count + 1, s => (mem s).toNat :: rangeBytes mem count (s + 1)

/-- The first characters of a string up to its null, as numbers. -/
def rangeChars
    (conv : BitVec 8 → BitVec 8)
    (mem : Bytes) : Nat → Nat → List Nat
  | 0, _ => []
  | n + 1, s =>
      if mem s = 0 then
        []
      else
        (conv (mem s)).toNat :: rangeChars conv mem n (s + 1)

/-- A number has the sign of the lexicographic comparison of two lists. -/
def SignOf
    (number : Int)
    (first second : List Nat) : Prop :=
  compare number 0 = compare first second

/-- A difference that a signed byte keeps. -/
def Narrow (diff : Int) : Prop :=
  -128 ≤ diff ∧ diff ≤ 127

/-- Where two ranges first differ, their difference is kept. -/
def RangesNarrow
    (mem : Bytes)
    (count s1 s2 : Nat) : Prop :=
  ∀ i < count,
    (∀ j < i, mem (s1 + j) = mem (s2 + j)) →
      Narrow (charDiff (mem (s1 + i)) (mem (s2 + i)))

/--
Where two strings first differ or the first one ends, the second one ends with
it, or their difference is kept.
-/
def StringsNarrow
    (conv : BitVec 8 → BitVec 8)
    (mem : Bytes)
    (n s1 s2 : Nat) : Prop :=
  ∀ i < n,
    (∀ j < i,
      mem (s1 + j) ≠ 0 ∧ conv (mem (s1 + j)) = conv (mem (s2 + j))) →
        (mem (s1 + i) = 0 → mem (s2 + i) = 0) ∧
          (mem (s1 + i) ≠ 0 →
            Narrow (charDiff (conv (mem (s1 + i))) (conv (mem (s2 + i)))))

/-- When `strncmp` and `strncasecmp` compare right. -/
def ComparedRight
    (conv : BitVec 8 → BitVec 8)
    (mem : Bytes)
    (s1 s2 n : Nat) : Prop :=
  (n = 0 → mem s2 = 0) ∧ (mem s1 ≠ 0 → StringsNarrow conv mem n s1 s2)

/-- A conversion of characters keeps the null apart from the others. -/
structure KeepsNull (conv : BitVec 8 → BitVec 8) : Prop where
  null : conv 0 = 0
  char : ∀ c, c ≠ 0 → conv c ≠ 0

/-! ## The difference of two bytes -/

section Bytewise

variable (first second : BitVec 8)

theorem charDiff_bounds :
    -255 ≤ charDiff first second ∧ charDiff first second ≤ 255 := by
  have low := first.isLt
  have high := second.isLt
  rw [charDiff]
  omega

theorem charDiff_eq_zero :
    charDiff first second = 0 ↔ first = second := by
  rw [charDiff, sub_eq_zero, Nat.cast_inj, BitVec.toNat_inj]

/-- A signed byte is 0 for a difference that is. -/
theorem signedChar_eq_zero :
    signedChar (charDiff first second) = 0 ↔ first = second := by
  have bounds := charDiff_bounds first second
  rw [← charDiff_eq_zero, signedChar, BitVec.toInt_ofInt, Int.bmod_def]
  omega

/-- A signed byte has the sign of a difference that it keeps, and no other. -/
theorem signedChar_sign :
    compare (signedChar (charDiff first second)) 0 =
        compare first.toNat second.toNat ↔
      Narrow (charDiff first second) := by
  have bounds := charDiff_bounds first second
  have value :
      signedChar (charDiff first second) = (charDiff first second).bmod 256 := by
    rw [signedChar, BitVec.toInt_ofInt]
  rw [value, Narrow, Int.bmod_def]
  rw [charDiff] at bounds ⊢
  rcases Nat.lt_trichotomy first.toNat second.toNat with less | same | more
  · rw [Nat.compare_eq_lt.mpr less, Int.compare_eq_lt]
    omega
  · rw [Nat.compare_eq_eq.mpr same, Int.compare_eq_eq]
    omega
  · rw [Nat.compare_eq_gt.mpr more, Int.compare_eq_gt]
    omega

/-- The whole difference has the sign of the comparison. -/
theorem charDiff_sign :
    compare (charDiff first second) 0 =
      compare first.toNat second.toNat := by
  rw [charDiff]
  rcases Nat.lt_trichotomy first.toNat second.toNat with less | same | more
  · rw [Nat.compare_eq_lt.mpr less, Int.compare_eq_lt]
    omega
  · rw [Nat.compare_eq_eq.mpr same, Int.compare_eq_eq]
    omega
  · rw [Nat.compare_eq_gt.mpr more, Int.compare_eq_gt]
    omega

/-- Two numbers that differ decide a comparison. -/
theorem compare_then_of_ne
    {low high : Nat}
    (differ : low ≠ high)
    (rest : Ordering) :
    (compare low high).then rest = compare low high := by
  rcases Nat.lt_or_gt_of_ne differ with less | more
  · rw [Nat.compare_eq_lt.mpr less, Ordering.lt_then]
  · rw [Nat.compare_eq_gt.mpr more, Ordering.gt_then]

end Bytewise

/-- The two conversions. -/
theorem keepsNull_id : KeepsNull id where
  null := rfl
  char := fun _ char => char

theorem keepsNull_toupper : KeepsNull toupper where
  null := by decide
  char := by decide +kernel

/-- A lower case letter becomes the upper case one, and nothing else changes. -/
theorem toupper_toNat (c : BitVec 8) :
    (toupper c).toNat =
      if 97 ≤ c.toNat ∧ c.toNat ≤ 122 then c.toNat - 32 else c.toNat := by
  revert c
  decide +kernel

section Compare

variable {conv : BitVec 8 → BitVec 8}
variable {mem : Bytes}
variable {n count s1 s2 : Nat}

/-! ## Ranges -/

/-- The first bytes keep their difference, and the others where they are equal. -/
theorem rangesNarrow_succ :
    RangesNarrow mem (count + 1) s1 s2 ↔
      Narrow (charDiff (mem s1) (mem s2)) ∧
        (mem s1 = mem s2 → RangesNarrow mem count (s1 + 1) (s2 + 1)) := by
  constructor
  · intro narrow
    refine ⟨narrow 0 (Nat.succ_pos count) nofun, fun same i before agree => ?_⟩
    rw [Nat.add_right_comm, Nat.add_right_comm s2]
    refine narrow (i + 1) (Nat.succ_lt_succ before) fun j below => ?_
    cases j with
    | zero => exact same
    | succ j =>
        have earlier := agree j (Nat.lt_of_succ_lt_succ below)
        rwa [Nat.add_right_comm, Nat.add_right_comm s2] at earlier
  · rintro ⟨first, later⟩ i before agree
    cases i with
    | zero => exact first
    | succ i =>
        have narrow :=
          later (agree 0 (Nat.succ_pos i)) i (Nat.lt_of_succ_lt_succ before)
        rw [Nat.add_right_comm, Nat.add_right_comm s2] at narrow
        refine narrow fun j below => ?_
        rw [Nat.add_right_comm, Nat.add_right_comm s2]
        exact agree (j + 1) (Nat.succ_lt_succ below)

/-- `memcmp` is right when the first difference is one that a signed byte keeps. -/
theorem memcmp_sign :
    SignOf (memcmp mem count s1 s2) (rangeBytes mem count s1)
        (rangeBytes mem count s2) ↔
      RangesNarrow mem count s1 s2 := by
  induction count generalizing s1 s2 with
  | zero =>
      exact iff_of_true rfl nofun
  | succ count inductionHypothesis =>
      rw [SignOf, memcmp, rangeBytes, rangeBytes, List.compare_cons_cons,
        rangesNarrow_succ]
      by_cases same : mem s1 = mem s2
      · have zero := (signedChar_eq_zero (mem s1) (mem s2)).mpr same
        have narrow : Narrow (charDiff (mem s1) (mem s2)) := by
          rw [(charDiff_eq_zero _ _).mpr same]
          exact ⟨by decide, by decide⟩
        rw [if_neg (not_not_intro zero), Nat.compare_eq_eq.mpr (by rw [same]),
          Ordering.eq_then, and_iff_right narrow]
        rw [← inductionHypothesis]
        exact ⟨fun sign _ => sign, fun sign => sign same⟩
      · have differ := (signedChar_eq_zero (mem s1) (mem s2)).not.mpr same
        have apart : (mem s1).toNat ≠ (mem s2).toNat :=
          fun equal => same (BitVec.eq_of_toNat_eq equal)
        rw [if_pos differ, compare_then_of_ne apart, signedChar_sign]
        exact (and_iff_left fun equal => absurd equal same).symm

/-! ## Strings -/

/-- The first characters, and the others where they are the same and no null. -/
theorem stringsNarrow_succ :
    StringsNarrow conv mem (n + 1) s1 s2 ↔
      (mem s1 = 0 → mem s2 = 0) ∧
        (mem s1 ≠ 0 →
          Narrow (charDiff (conv (mem s1)) (conv (mem s2)))) ∧
        (mem s1 ≠ 0 → conv (mem s1) = conv (mem s2) →
          StringsNarrow conv mem n (s1 + 1) (s2 + 1)) := by
  constructor
  · intro narrow
    obtain ⟨ends, first⟩ := narrow 0 (Nat.succ_pos n) nofun
    refine ⟨ends, first, fun char same i before agree => ?_⟩
    rw [Nat.add_right_comm, Nat.add_right_comm s2]
    refine narrow (i + 1) (Nat.succ_lt_succ before) fun j below => ?_
    cases j with
    | zero => exact ⟨char, same⟩
    | succ j =>
        have earlier := agree j (Nat.lt_of_succ_lt_succ below)
        rwa [Nat.add_right_comm, Nat.add_right_comm s2] at earlier
  · rintro ⟨ends, first, later⟩ i before agree
    cases i with
    | zero => exact ⟨ends, first⟩
    | succ i =>
        obtain ⟨char, same⟩ := agree 0 (Nat.succ_pos i)
        have narrow := later char same i (Nat.lt_of_succ_lt_succ before)
        rw [Nat.add_right_comm, Nat.add_right_comm s2] at narrow
        refine narrow fun j below => ?_
        rw [Nat.add_right_comm, Nat.add_right_comm s2]
        exact agree (j + 1) (Nat.succ_lt_succ below)

/-- From equal beginnings on the loop is right when the strings are narrow. -/
theorem compareLoop_sign
    (keeps : KeepsNull conv) :
    SignOf (compareLoop conv mem n 0 s1 s2) (rangeChars conv mem n s1)
        (rangeChars conv mem n s2) ↔
      StringsNarrow conv mem n s1 s2 := by
  induction n generalizing s1 s2 with
  | zero =>
      exact iff_of_true rfl nofun
  | succ n inductionHypothesis =>
      rw [SignOf, compareLoop, rangeChars, rangeChars, stringsNarrow_succ]
      by_cases null : mem s1 = 0
      · rw [if_pos null, if_pos null]
        by_cases also : mem s2 = 0
        · rw [if_pos also]
          exact
            iff_of_true rfl
              ⟨fun _ => also, fun char => absurd null char,
                fun char => absurd null char⟩
        · rw [if_neg also, List.compare_nil_cons]
          exact iff_of_false nofun fun all => also (all.1 null)
      · rw [if_neg null, if_neg null, and_iff_right (fun none => absurd none null)]
        have differ := signedChar_eq_zero (conv (mem s1)) (conv (mem s2))
        have sign := signedChar_sign (conv (mem s1)) (conv (mem s2))
        by_cases also : mem s2 = 0
        · -- only the second string ends
          have apart : conv (mem s1) ≠ conv (mem s2) := by
            rw [also, keeps.null]
            exact keeps.char _ null
          have more : compare (conv (mem s1)).toNat (conv (mem s2)).toNat = .gt := by
            rw [also, keeps.null] at apart ⊢
            exact
              Nat.compare_eq_gt.mpr
                (Nat.pos_of_ne_zero fun zero =>
                  apart (BitVec.eq_of_toNat_eq zero))
          rw [if_pos also, List.compare_cons_nil, if_pos (differ.not.mpr apart),
            ← more, sign]
          exact
            ⟨fun narrow => ⟨fun _ => narrow, fun _ same => absurd same apart⟩,
              fun both => both.1 null⟩
        · rw [if_neg also, List.compare_cons_cons]
          by_cases same : conv (mem s1) = conv (mem s2)
          · have zero := differ.mpr same
            have narrow :
                Narrow (charDiff (conv (mem s1)) (conv (mem s2))) := by
              rw [(charDiff_eq_zero _ _).mpr same]
              exact ⟨by decide, by decide⟩
            rw [if_neg (not_not_intro zero), zero,
              Nat.compare_eq_eq.mpr (by rw [same]), Ordering.eq_then]
            have rest :
                compare (compareLoop conv mem n 0 (s1 + 1) (s2 + 1)) 0 =
                    compare (rangeChars conv mem n (s1 + 1))
                      (rangeChars conv mem n (s2 + 1)) ↔
                  StringsNarrow conv mem n (s1 + 1) (s2 + 1) :=
              inductionHypothesis
            rw [rest]
            exact
              ⟨fun later => ⟨fun _ => narrow, fun _ _ => later⟩,
                fun both => both.2 null same⟩
          · have apart : (conv (mem s1)).toNat ≠ (conv (mem s2)).toNat :=
              fun equal => same (BitVec.eq_of_toNat_eq equal)
            rw [if_pos (differ.not.mpr same), compare_then_of_ne apart, sign]
            exact
              ⟨fun narrow => ⟨fun _ => narrow, fun _ equal => absurd equal same⟩,
                fun both => both.1 null⟩

/--
`strncmp` and `strncasecmp` are right under their condition.  What they start
with is the result for no characters, and when the first string is empty.
-/
theorem compareStrings_sign
    (keeps : KeepsNull conv) :
    SignOf (compareStrings conv mem s1 s2 n) (rangeChars conv mem n s1)
        (rangeChars conv mem n s2) ↔
      ComparedRight conv mem s1 s2 n := by
  rw [compareStrings, ComparedRight]
  cases n with
  | zero =>
      have empty : ∀ s, rangeChars conv mem 0 s = [] := fun _ => rfl
      rw [compareLoop, empty, empty]
      by_cases null : mem s2 = 0
      · rw [if_pos null]
        exact iff_of_true rfl ⟨fun _ => null, fun _ => nofun⟩
      · rw [if_neg null]
        exact iff_of_false nofun fun both => null (both.1 rfl)
  | succ n =>
      by_cases null : mem s1 = 0
      · rw [compareLoop, if_pos null, rangeChars, if_pos null, rangeChars]
        refine iff_of_true ?_ ⟨nofun, fun char => absurd null char⟩
        by_cases also : mem s2 = 0
        · rw [if_pos also, if_pos also]
          rfl
        · rw [if_neg also, if_neg also]
          rfl
      · have sameStart :
            compareLoop conv mem (n + 1) (if mem s2 = 0 then 0 else -1) s1 s2 =
              compareLoop conv mem (n + 1) 0 s1 s2 := by
          rw [compareLoop, compareLoop, if_neg null, if_neg null]
        rw [sameStart, compareLoop_sign keeps]
        exact
          ⟨fun narrow => ⟨nofun, fun _ => narrow⟩, fun both => both.2 null⟩

/-- `strcmp` is right for any two strings: it keeps the whole difference. -/
theorem strcmp_sign
    {steps len1 len2 : Nat}
    {result : Int}
    (string1 : StringAt mem s1 len1)
    (string2 : StringAt mem s2 len2)
    (beyond1 : len1 < n)
    (beyond2 : len2 < n)
    (returned : strcmp mem steps s1 s2 = some result) :
    SignOf result (rangeChars id mem n s1) (rangeChars id mem n s2) := by
  induction steps generalizing s1 s2 len1 len2 n with
  | zero =>
      cases returned
  | succ steps inductionHypothesis =>
      obtain ⟨m, rfl⟩ := Nat.exists_eq_succ_of_ne_zero (Nat.ne_zero_of_lt beyond1)
      rw [strcmp] at returned
      rw [SignOf, rangeChars, rangeChars]
      split at returned
      case isTrue goesOn =>
        obtain ⟨char, same⟩ := goesOn
        have also : mem s2 ≠ 0 := same ▸ char
        obtain ⟨rest1, rfl, tail1⟩ := string1.tail char
        obtain ⟨rest2, rfl, tail2⟩ := string2.tail also
        have later :=
          inductionHypothesis tail1 tail2 (Nat.lt_of_succ_lt_succ beyond1)
            (Nat.lt_of_succ_lt_succ beyond2) returned
        rw [if_neg char, if_neg also, List.compare_cons_cons, same,
          Nat.compare_eq_eq.mpr rfl, Ordering.eq_then]
        exact later
      case isFalse stops =>
        cases returned
        rw [charDiff_sign]
        by_cases null : mem s1 = 0
        · rw [if_pos null, null]
          by_cases also : mem s2 = 0
          · rw [if_pos also, also]
            rfl
          · rw [if_neg also, List.compare_nil_cons]
            exact
              Nat.compare_eq_lt.mpr
                (Nat.pos_of_ne_zero fun zero =>
                  also (BitVec.eq_of_toNat_eq zero))
        · rw [if_neg null]
          by_cases also : mem s2 = 0
          · rw [if_pos also, List.compare_cons_nil, also]
            exact
              Nat.compare_eq_gt.mpr
                (Nat.pos_of_ne_zero fun zero =>
                  null (BitVec.eq_of_toNat_eq zero))
          · have apart : (mem s1).toNat ≠ (mem s2).toNat :=
              fun equal => stops ⟨null, BitVec.eq_of_toNat_eq equal⟩
            rw [if_neg also, List.compare_cons_cons, id, id,
              compare_then_of_ne apart]

/-- `strcmp` returns for any string. -/
theorem strcmp_returns
    {len : Nat}
    (string : StringAt mem s1 len) :
    ∃ result, strcmp mem (len + 1) s1 s2 = some result := by
  induction len generalizing s1 s2 with
  | zero =>
      have null : mem s1 = 0 := string.ends
      exact ⟨_, if_neg fun both => both.1 null⟩
  | succ len inductionHypothesis =>
      obtain ⟨rest, same, tail⟩ := string.tail (string.chars 0 (Nat.succ_pos len))
      cases same
      rw [strcmp]
      split
      · exact inductionHypothesis tail
      · exact ⟨_, rfl⟩

/-- When `strncmp` agrees with `strcmp` on strings that are shorter than `n`. -/
theorem strncmp_agrees_iff
    {len1 len2 : Nat}
    (string1 : StringAt mem s1 len1)
    (string2 : StringAt mem s2 len2)
    (beyond1 : len1 < n)
    (beyond2 : len2 < n) :
    (∃ steps result,
      strcmp mem steps s1 s2 = some result ∧
        compare (strncmp mem s1 s2 n) 0 = compare result 0) ↔
      ComparedRight id mem s1 s2 n := by
  rw [← compareStrings_sign keepsNull_id]
  constructor
  · rintro ⟨steps, result, returned, agree⟩
    rw [SignOf]
    exact
      agree.trans (strcmp_sign string1 string2 beyond1 beyond2 returned)
  · intro sign
    obtain ⟨result, returned⟩ := strcmp_returns string1
    exact
      ⟨_, result, returned,
        sign.trans
          (strcmp_sign string1 string2 beyond1 beyond2 returned).symm⟩

end Compare

/-- A memory of two strings "a" and "ab", and the byte 225 at 6. -/
def letters : Bytes :=
  fun a =>
    if a = 0 ∨ a = 2 then 97
    else if a = 3 then 98
    else if a = 6 then 225
    else 0

end RiscvWorkshop.Klib
