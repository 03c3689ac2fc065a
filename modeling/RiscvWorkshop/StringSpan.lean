import Mathlib
import RiscvWorkshop.StringCopy

namespace RiscvWorkshop.Klib

/-!
# Spans of characters

`strspn` and `strcspn` keep the characters of a set in a table of 256 bits, and
go along a string as long as its characters are in the table, or are not.  The
null is in the table of `strcspn` only, so that both stop at it.
-/

/-- `tbl`, by the index of its words. -/
abbrev CharTable := Nat → BitVec 64

/-- `IDX`. -/
def charIdx (c : BitVec 8) : Nat :=
  c.toNat / 64

/-- `BIT`. -/
def charBit (c : BitVec 8) : BitVec 64 :=
  1#64 <<< (c.toNat % 64)

/-- `tbl[idx] |= bit`. -/
def CharTable.add
    (tbl : CharTable)
    (c : BitVec 8) : CharTable :=
  Function.update tbl (charIdx c) (tbl (charIdx c) ||| charBit c)

/-- `( tbl[idx] & bit ) != 0`. -/
def CharTable.has
    (tbl : CharTable)
    (c : BitVec 8) : Bool :=
  tbl (charIdx c) &&& charBit c != 0

/-- The loop that enters the characters of a string into the table. -/
def fillTable (mem : Bytes) : Nat → CharTable → Nat → Option CharTable
  | 0, _, _ => none
  | steps + 1, tbl, accept =>
      if mem accept ≠ 0 then
        fillTable mem steps (tbl.add (mem accept)) (accept + 1)
      else
        some tbl

/-- The loop that goes on while the table has the characters, or has not. -/
def spanLoop
    (mem : Bytes)
    (tbl : CharTable)
    (wanted : Bool) : Nat → Nat → Option Nat
  | 0, _ => none
  | steps + 1, s1 =>
      if tbl.has (mem s1) = wanted then
        spanLoop mem tbl wanted steps (s1 + 1)
      else
        some s1

/-- `strspn`, with a bound on the turns of its loops. -/
def strspn
    (steps : Nat)
    (mem : Bytes)
    (s accept : Nat) : Option Nat :=
  if mem s = 0 then
    some 0
  else
    (fillTable mem steps (fun _ => 0) accept).bind fun tbl =>
      (spanLoop mem tbl true steps s).map fun s1 => s1 - s

/-- `strcspn`, whose table begins with the null. -/
def strcspn
    (steps : Nat)
    (mem : Bytes)
    (s reject : Nat) : Option Nat :=
  if mem s = 0 then
    some 0
  else
    (fillTable mem steps (Function.update (fun _ => 0) 0 1) reject).bind
      fun tbl => (spanLoop mem tbl false steps s).map fun s1 => s1 - s

/-- A string that holds the characters of a set. -/
structure SetAt
    (mem : Bytes)
    (accept len : Nat)
    (set : List (BitVec 8)) : Prop where
  string : StringAt mem accept len
  chars : ∀ c, c ∈ set ↔ ∃ i < len, mem (accept + i) = c

/-- From one place up to another the bytes meet a condition that fails there. -/
structure Span
    (mem : Bytes)
    (cond : BitVec 8 → Prop)
    (start stop : Nat) : Prop where
  ordered : start ≤ stop
  inside : ∀ a, start ≤ a → a < stop → cond (mem a)
  ends : ¬ cond (mem stop)

/-! ## The table -/

section Table

variable {mem after : Bytes}
variable {tbl : CharTable}
variable {c other : BitVec 8}
variable {set : List (BitVec 8)}
variable {s accept len steps start stop : Nat}

/-- A word has the bit of a character. -/
theorem and_charBit_ne_zero
    (word : BitVec 64)
    (c : BitVec 8) :
    word &&& charBit c ≠ 0 ↔ word.getLsbD (c.toNat % 64) = true := by
  have bit : ∀ i, (charBit c).getLsbD i = decide (c.toNat % 64 = i) := by
    intro i
    rw [charBit, ← BitVec.twoPow_eq, BitVec.getLsbD_twoPow,
      decide_eq_true (Nat.mod_lt _ (by decide)), Bool.true_and]
  constructor
  · intro some_bit
    by_contra clear
    refine some_bit (BitVec.eq_of_getLsbD_eq fun i inWord => ?_)
    rw [BitVec.getLsbD_and, bit]
    by_cases here : c.toNat % 64 = i
    · subst here
      simpa using clear
    · simp [here]
  · intro set zero
    have clear := congrArg (fun both => both.getLsbD (c.toNat % 64)) zero
    simp only [BitVec.getLsbD_and, bit, set] at clear
    simp at clear

/-- A character is entered beside those that the table has. -/
theorem CharTable.has_add :
    (tbl.add c).has other = true ↔ other = c ∨ tbl.has other = true := by
  simp only [CharTable.has, bne_iff_ne, and_charBit_ne_zero]
  rw [CharTable.add]
  by_cases word : charIdx other = charIdx c
  · rw [word, Function.update_self, BitVec.getLsbD_or, Bool.or_eq_true]
    have same : (charBit c).getLsbD (other.toNat % 64) = true ↔ other = c := by
      rw [charBit, ← BitVec.twoPow_eq, BitVec.getLsbD_twoPow, ← BitVec.toNat_inj]
      rw [charIdx, charIdx] at word
      simp only [Bool.and_eq_true, decide_eq_true_eq]
      omega
    rw [same, or_comm]
  · rw [Function.update_of_ne word]
    have different : other ≠ c := by
      rintro rfl
      exact word rfl
    simp [different]

/-- The first character of a string, or one of the others. -/
theorem exists_char_succ :
    (∃ i < len + 1, mem (accept + i) = c) ↔
      mem accept = c ∨ ∃ i < len, mem (accept + 1 + i) = c := by
  constructor
  · rintro ⟨i, before, same⟩
    cases i with
    | zero => exact .inl same
    | succ i =>
        refine .inr ⟨i, Nat.lt_of_succ_lt_succ before, ?_⟩
        rwa [Nat.add_right_comm]
  · rintro (same | ⟨i, before, same⟩)
    · exact ⟨0, Nat.succ_pos len, same⟩
    · refine ⟨i + 1, Nat.succ_lt_succ before, ?_⟩
      rwa [Nat.add_right_comm] at same

/-- The table has what it had, and the characters of the string. -/
theorem fillTable_eq
    (string : StringAt mem accept len)
    (enough : len < steps) :
    ∃ full,
      fillTable mem steps tbl accept = some full ∧
        ∀ c, full.has c = true ↔
          (∃ i < len, mem (accept + i) = c) ∨ tbl.has c = true := by
  induction steps generalizing tbl accept len with
  | zero =>
      cases enough
  | succ steps inductionHypothesis =>
      rw [fillTable]
      by_cases null : mem accept = 0
      · refine ⟨tbl, if_neg (not_not_intro null), fun c => ?_⟩
        rw [string.len_eq_zero null]
        simp
      · obtain ⟨rest, rfl, tail⟩ := string.tail null
        obtain ⟨full, filled, has⟩ :
            ∃ full,
              fillTable mem steps (tbl.add (mem accept)) (accept + 1) =
                  some full ∧
                ∀ c, full.has c = true ↔
                  (∃ i < rest, mem (accept + 1 + i) = c) ∨
                    (tbl.add (mem accept)).has c = true :=
          inductionHypothesis tail (Nat.lt_of_succ_lt_succ enough)
        refine ⟨full, (if_pos null).trans filled, fun c => ?_⟩
        rw [has, CharTable.has_add, exists_char_succ, eq_comm]
        exact or_left_comm.trans or_assoc.symm

/-- Where the condition fails at once, the span is empty. -/
theorem Span.refl
    {cond : BitVec 8 → Prop}
    (fails : ¬ cond (mem start)) :
    Span mem cond start start where
  ordered := le_rfl
  inside := fun _ after before => absurd before (Nat.not_lt.mpr after)
  ends := fails

/-- A span behind its first byte. -/
theorem Span.tail
    {cond : BitVec 8 → Prop}
    (span : Span mem cond start stop)
    (first : cond (mem start)) :
    start < stop ∧ Span mem cond (start + 1) stop := by
  have before : start < stop := by
    rcases Nat.lt_or_eq_of_le span.ordered with less | rfl
    · exact less
    · exact absurd first span.ends
  exact
    ⟨before,
      { ordered := before
        inside := fun a after => span.inside a (Nat.le_of_succ_le after)
        ends := span.ends }⟩

/-- A span with one more byte in front. -/
theorem Span.cons
    {cond : BitVec 8 → Prop}
    (first : cond (mem start))
    (span : Span mem cond (start + 1) stop) :
    Span mem cond start stop where
  ordered := Nat.le_of_succ_le span.ordered
  inside := by
    intro a after before
    rcases Nat.lt_or_eq_of_le after with later | rfl
    · exact span.inside a later before
    · exact first
  ends := span.ends

/-- A span ends at one place. -/
theorem Span.unique
    {cond : BitVec 8 → Prop}
    {other : Nat}
    (span : Span mem cond start stop)
    (again : Span mem cond start other) :
    stop = other := by
  rcases Nat.lt_trichotomy stop other with less | same | more
  · exact absurd (again.inside stop span.ordered less) span.ends
  · exact same
  · exact absurd (span.inside other again.ordered more) again.ends

/-- The loop ends where the span does. -/
theorem spanLoop_eq
    {wanted : Bool}
    (span : Span mem (fun c => tbl.has c = wanted) start stop)
    (enough : stop - start < steps) :
    spanLoop mem tbl wanted steps start = some stop := by
  induction steps generalizing start with
  | zero =>
      cases enough
  | succ steps inductionHypothesis =>
      rw [spanLoop]
      split
      case isTrue first =>
        obtain ⟨before, tail⟩ := span.tail first
        exact inductionHypothesis tail (by omega)
      case isFalse last =>
        rw [(Span.refl last).unique span]

/-- Where the loop ends, there is a span. -/
theorem spanLoop_span
    {wanted : Bool}
    (ended : spanLoop mem tbl wanted steps start = some stop) :
    Span mem (fun c => tbl.has c = wanted) start stop := by
  induction steps generalizing start with
  | zero =>
      cases ended
  | succ steps inductionHypothesis =>
      rw [spanLoop] at ended
      split at ended
      case isTrue first =>
        exact (inductionHypothesis ended).cons first
      case isFalse last =>
        cases ended
        exact Span.refl last

/-- Spans of conditions that hold of the same bytes. -/
theorem Span.congr
    {cond same : BitVec 8 → Prop}
    (span : Span mem cond start stop)
    (iff : ∀ c, same c ↔ cond c) :
    Span mem same start stop where
  ordered := span.ordered
  inside := fun a after before => (iff _).mpr (span.inside a after before)
  ends := (iff _).not.mpr span.ends

end Table

/-! ## The two functions -/

section Functions

variable {mem : Bytes}
variable {set : List (BitVec 8)}
variable {s accept len steps stop : Nat}

/-- The null is no character of a set. -/
theorem SetAt.null_notMem
    (chars : SetAt mem accept len set) :
    (0 : BitVec 8) ∉ set := by
  intro member
  obtain ⟨i, before, null⟩ := (chars.chars 0).mp member
  exact chars.string.chars i before null

/-- The table of `strspn` has the characters of the set. -/
theorem SetAt.table_strspn
    (chars : SetAt mem accept len set)
    (enough : len < steps) :
    ∃ tbl,
      fillTable mem steps (fun _ => 0) accept = some tbl ∧
        ∀ c, c ∈ set ↔ tbl.has c = true := by
  obtain ⟨tbl, filled, has⟩ := fillTable_eq chars.string enough
  refine ⟨tbl, filled, fun c => ?_⟩
  have empty : CharTable.has (fun _ => 0) c = false := by
    simp [CharTable.has]
  rw [has, empty, chars.chars]
  simp

/-- The table of `strcspn` has the null besides. -/
theorem SetAt.table_strcspn
    (chars : SetAt mem accept len set)
    (enough : len < steps) :
    ∃ tbl,
      fillTable mem steps (Function.update (fun _ => 0) 0 1) accept =
          some tbl ∧
        ∀ c, c ≠ 0 ∧ c ∉ set ↔ tbl.has c = false := by
  obtain ⟨tbl, filled, has⟩ := fillTable_eq chars.string enough
  refine ⟨tbl, filled, fun c => ?_⟩
  have null :
      CharTable.has (Function.update (fun _ => 0) 0 1) c = true ↔ c = 0 := by
    revert c
    decide +kernel
  rw [← Bool.not_eq_true, has, null, chars.chars, not_or, and_comm]

/-- `strspn` is the length of the span of characters in the set. -/
theorem SetAt.strspn_eq
    (chars : SetAt mem accept len set)
    (span : Span mem (· ∈ set) s stop)
    (enough : len < steps)
    (room : stop - s < steps) :
    strspn steps mem s accept = some (stop - s) := by
  rw [strspn]
  split
  case isTrue null =>
    have fails : mem s ∉ set := null ▸ chars.null_notMem
    rw [← (Span.refl fails).unique span, Nat.sub_self]
  case isFalse char =>
    obtain ⟨tbl, filled, has⟩ := chars.table_strspn enough
    have ended := spanLoop_eq (span.congr fun c => (has c).symm) room
    rw [filled, Option.bind_some, ended]
    rfl

/-- What `strspn` returns is the length of a span. -/
theorem SetAt.strspn_span
    {count : Nat}
    (chars : SetAt mem accept len set)
    (enough : len < steps)
    (returned : strspn steps mem s accept = some count) :
    Span mem (· ∈ set) s (s + count) := by
  rw [strspn] at returned
  split at returned
  case isTrue null =>
    cases returned
    exact Span.refl (null ▸ chars.null_notMem)
  case isFalse char =>
    obtain ⟨tbl, filled, has⟩ := chars.table_strspn enough
    rw [filled, Option.bind_some] at returned
    obtain ⟨stop, ended, rfl⟩ := Option.map_eq_some_iff.mp returned
    have span := (spanLoop_span ended).congr has
    rw [Nat.add_sub_cancel' span.ordered]
    exact span

/-- `strcspn` is the length of the span of characters outside the set. -/
theorem SetAt.strcspn_eq
    (chars : SetAt mem accept len set)
    (span : Span mem (fun c => c ≠ 0 ∧ c ∉ set) s stop)
    (enough : len < steps)
    (room : stop - s < steps) :
    strcspn steps mem s accept = some (stop - s) := by
  rw [strcspn]
  split
  case isTrue null =>
    have fails : ¬ (mem s ≠ 0 ∧ mem s ∉ set) := fun both => both.1 null
    have here : Span mem (fun c => c ≠ 0 ∧ c ∉ set) s s := Span.refl fails
    rw [← here.unique span, Nat.sub_self]
  case isFalse char =>
    obtain ⟨tbl, filled, has⟩ := chars.table_strcspn enough
    have ended := spanLoop_eq (span.congr fun c => (has c).symm) room
    rw [filled, Option.bind_some, ended]
    rfl

end Functions

end RiscvWorkshop.Klib
