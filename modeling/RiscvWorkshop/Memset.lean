import Mathlib

namespace RiscvWorkshop.Klib

/-!
# Setting memory

`memset` has a loop for double words, one for words and one for bytes, which
jump into each other.  They share the length that is left, and each has its own
place in memory.  A step of the machine below goes from one label or turn of a
loop to the next.
-/

/-- The bytes of memory. -/
abbrev Bytes : Type := Nat → BitVec 8

/-- `val`: the byte that is written. -/
def setVal (c : BitVec 32) : BitVec 64 :=
  (c &&& 0xff).zeroExtend 64

/-- `c32`. -/
def setVal32 (c : BitVec 32) : BitVec 32 :=
  (setVal c <<< 24 ||| setVal c <<< 16 ||| setVal c <<< 8 ||| setVal c).truncate 32

/-- `c64`. -/
def setVal64 (c : BitVec 32) : BitVec 64 :=
  (setVal32 c).zeroExtend 64 <<< 32 ||| (setVal32 c).zeroExtend 64

/-- `(uint8_t)(c & 0xff)`. -/
def setVal8 (c : BitVec 32) : BitVec 8 :=
  (c &&& 0xff).truncate 8

/-- One byte of a word, the lowest first. -/
def byteOf {width : Nat} (word : BitVec width) (i : Nat) : BitVec 8 :=
  (word >>> (8 * i)).truncate 8

/-- Store a word of a number of bytes. -/
def storeWord
    {width : Nat}
    (mem : Bytes)
    (size a : Nat)
    (word : BitVec width) : Bytes :=
  fun b => if a ≤ b ∧ b < a + size then byteOf word (b - a) else mem b

/-- The labels of `memset` and the turns of its loops. -/
inductive SetPoint where
  | start
  | retry64
  | fill64 (cp64 : Nat)
  | check32
  | retry32
  | fill32 (cp32 : Nat)
  | fill8
deriving Repr, DecidableEq

/-- Where `memset` is, with `cp8` and `len`. -/
structure SetState where
  mem : Bytes
  point : SetPoint
  cp8 : Nat
  len : Nat

/-- One step of `memset`, or none when it returns. -/
def setNext (c : BitVec 32) (st : SetState) : Option SetState :=
  match st.point with
  | .start =>
      if st.cp8 % 8 = 0 ∧ st.len ≥ 8 then
        some { st with point := .retry64 }
      else
        some { st with point := .check32 }
  | .retry64 => some { st with point := .fill64 st.cp8 }
  | .fill64 cp64 =>
      if st.len ≥ 8 then
        some
          { st with
            mem := storeWord st.mem 8 cp64 (setVal64 c)
            point := .fill64 (cp64 + 8)
            len := st.len - 8 }
      else
        some { st with point := .check32, cp8 := cp64 }
  | .check32 =>
      if st.cp8 % 4 = 0 ∧ st.len ≥ 4 then
        some { st with point := .retry32 }
      else
        some { st with point := .fill8 }
  | .retry32 => some { st with point := .fill32 st.cp8 }
  | .fill32 cp32 =>
      if st.len ≥ 4 then
        let mem := storeWord st.mem 4 cp32 (setVal32 c)
        -- the jump leaves the length as it was before this turn
        if st.cp8 % 8 = 0 ∧ st.len ≥ 8 then
          some { st with mem, point := .retry64, cp8 := cp32 + 4 }
        else
          some { st with mem, point := .fill32 (cp32 + 4), len := st.len - 4 }
      else
        some { st with point := .fill8 }
  | .fill8 =>
      if st.len > 0 then
        let st :=
          { st with
            mem := storeWord st.mem 1 st.cp8 (setVal8 c)
            cp8 := st.cp8 + 1
            len := st.len - 1 }
        if st.cp8 % 8 = 0 ∧ st.len ≥ 8 then
          some { st with point := .retry64 }
        else if st.cp8 % 4 = 0 ∧ st.len ≥ 4 then
          some { st with point := .retry32 }
        else
          some st
      else
        none

/-- The steps of `memset` up to its return, by how many there may be. -/
def setLoop (c : BitVec 32) : Nat → SetState → Option Bytes
  | 0, _ => none
  | steps + 1, st =>
      match setNext c st with
      | none => some st.mem
      | some st => setLoop c steps st

/-- `memset`, with what it returns and the memory after it. -/
def memset
    (steps : Nat)
    (mem : Bytes)
    (s : Nat)
    (c : BitVec 32)
    (n : Nat) : Option (Nat × Bytes) :=
  (setLoop c steps { mem, point := .start, cp8 := s, len := n }).map
    fun mem => (s, mem)

/-! ## The bytes of the words -/

theorem and_ff (c : BitVec 32) :
    c &&& 0xff = (c.setWidth 8).setWidth 32 := by
  ext k less
  have mask : ∀ k < 32, BitVec.getLsbD (255 : BitVec 32) k = decide (k < 8) := by
    decide
  simp only [← BitVec.getLsbD_eq_getElem, BitVec.getLsbD_and,
    BitVec.getLsbD_setWidth]
  rw [mask k less]
  grind

theorem setVal_eq (c : BitVec 32) :
    setVal c = (c.setWidth 8).zeroExtend 64 := by
  rw [setVal, and_ff]
  simp

/-- Every byte of the words is the byte that is written. -/
theorem byteOf_setVal64
    (c : BitVec 32)
    {i : Nat}
    (less : i < 8) :
    byteOf (setVal64 c) i = c.setWidth 8 := by
  rw [setVal64, setVal32, setVal_eq]
  generalize c.setWidth 8 = b
  revert b
  interval_cases i <;> decide +kernel

theorem byteOf_setVal32
    (c : BitVec 32)
    {i : Nat}
    (less : i < 4) :
    byteOf (setVal32 c) i = c.setWidth 8 := by
  rw [setVal32, setVal_eq]
  generalize c.setWidth 8 = b
  revert b
  interval_cases i <;> decide +kernel

theorem byteOf_setVal8
    (c : BitVec 32) :
    byteOf (setVal8 c) 0 = c.setWidth 8 := by
  rw [setVal8, and_ff, byteOf]
  simp

/-! ## Ranges of bytes -/

/-- A range of memory is set to a byte. -/
def fill (mem : Bytes) (start size : Nat) (b : BitVec 8) : Bytes :=
  fun a => if start ≤ a ∧ a < start + size then b else mem a

section Fill

variable {mem : Bytes}
variable {b : BitVec 8}
variable {start size more : Nat}

theorem fill_zero :
    fill mem start 0 b = mem := by
  funext a
  rw [fill, if_neg (by omega)]

/-- Two ranges that follow each other are one range. -/
theorem fill_fill :
    fill (fill mem start size b) (start + size) more b =
      fill mem start (size + more) b := by
  funext a
  simp only [fill]
  split_ifs <;> first | rfl | omega

/-- The start of a range that is set stays as it is when it is set again. -/
theorem fill_again
    (within : more ≤ size) :
    fill (fill mem start size b) start more b = fill mem start size b := by
  funext a
  simp only [fill]
  split_ifs <;> first | rfl | omega

/-- Storing a word of equal bytes sets a range. -/
theorem storeWord_eq
    {width : Nat}
    {word : BitVec width}
    (bytes : ∀ i < size, byteOf word i = b) :
    storeWord mem size start word = fill mem start size b := by
  funext a
  simp only [storeWord, fill]
  split_ifs with inside
  · exact bytes (a - start) (by omega)
  · rfl

end Fill

/-! ## Where the loops end -/

/-- `memset` returns with this memory. -/
def Ends (c : BitVec 32) (st : SetState) (mem : Bytes) : Prop :=
  ∃ steps, setLoop c steps st = some mem

section Loops

variable {c : BitVec 32}
variable {mem final : Bytes}
variable {cp8 len : Nat}

/-- A step leads to the same end. -/
theorem Ends.step
    {st after : SetState}
    (next : setNext c st = some after)
    (ends : Ends c after final) :
    Ends c st final := by
  obtain ⟨steps, result⟩ := ends
  exact ⟨steps + 1, by rw [setLoop, next]; exact result⟩

/-- Where no step is left, the memory stays as it is. -/
theorem ends_of_returns
    {st : SetState}
    (returns : setNext c st = none) :
    Ends c st st.mem :=
  ⟨1, by rw [setLoop, returns]⟩

/-- Fewer bytes than a word are set one by one. -/
theorem ends_fill8
    (short : len < 4) :
    Ends c { mem, point := .fill8, cp8, len }
      (fill mem cp8 len (c.setWidth 8)) := by
  induction len generalizing mem cp8 with
  | zero =>
      rw [fill_zero]
      exact ends_of_returns rfl
  | succ len inductionHypothesis =>
      have byte :
          storeWord mem 1 cp8 (setVal8 c) = fill mem cp8 1 (c.setWidth 8) :=
        storeWord_eq fun i less => by
          rw [Nat.lt_one_iff.mp less]
          exact byteOf_setVal8 c
      have next :
          setNext c { mem, point := .fill8, cp8, len := len + 1 } =
            some
              { mem := fill mem cp8 1 (c.setWidth 8)
                point := .fill8
                cp8 := cp8 + 1
                len } := by
        have noJump8 : ¬ ((cp8 + 1) % 8 = 0 ∧ len ≥ 8) := by omega
        have noJump4 : ¬ ((cp8 + 1) % 4 = 0 ∧ len ≥ 4) := by omega
        simp only [setNext, byte]
        rw [if_pos (Nat.succ_pos len), Nat.add_sub_cancel, if_neg noJump8,
          if_neg noJump4]
      have rest :
          Ends c
            { mem := fill mem cp8 1 (c.setWidth 8)
              point := .fill8
              cp8 := cp8 + 1
              len } _ :=
        inductionHypothesis (by omega)
      rw [fill_fill, Nat.add_comm 1 len] at rest
      exact rest.step next

/--
The words are set one after the other.  The bytes that are left are then
written where the words begin.
-/
theorem ends_fill32
    {cp32 : Nat}
    (noJump : ¬ (cp8 % 8 = 0 ∧ len ≥ 8)) :
    Ends c { mem, point := .fill32 cp32, cp8, len }
      (fill (fill mem cp32 (len / 4 * 4) (c.setWidth 8)) cp8 (len % 4)
        (c.setWidth 8)) := by
  induction len using Nat.strong_induction_on generalizing mem cp32 with
  | _ len inductionHypothesis =>
      by_cases more : len ≥ 4
      · have word :
            storeWord mem 4 cp32 (setVal32 c) =
              fill mem cp32 4 (c.setWidth 8) :=
          storeWord_eq fun i less => byteOf_setVal32 c less
        have next :
            setNext c { mem, point := .fill32 cp32, cp8, len } =
              some
                { mem := fill mem cp32 4 (c.setWidth 8)
                  point := .fill32 (cp32 + 4)
                  cp8
                  len := len - 4 } := by
          simp only [setNext, word]
          rw [if_pos more, if_neg noJump]
        have rest :
            Ends c
              { mem := fill mem cp32 4 (c.setWidth 8)
                point := .fill32 (cp32 + 4)
                cp8
                len := len - 4 } _ :=
          inductionHypothesis (len - 4) (by omega) (by omega)
        have words : 4 + (len - 4) / 4 * 4 = len / 4 * 4 := by omega
        have left : (len - 4) % 4 = len % 4 := by omega
        rw [fill_fill, words, left] at rest
        exact rest.step next
      · have next :
            setNext c { mem, point := .fill32 cp32, cp8, len } =
              some { mem, point := .fill8, cp8, len } := by
          simp only [setNext]
          rw [if_neg more]
        have none : len / 4 * 4 = 0 := by omega
        have left : len % 4 = len := by omega
        rw [none, fill_zero, left]
        exact (ends_fill8 (by omega)).step next

/-- From a word boundary on, the words are set and the bytes after them are not. -/
theorem ends_retry32
    (noJump : ¬ (cp8 % 8 = 0 ∧ len ≥ 8))
    (word : len ≥ 4) :
    Ends c { mem, point := .retry32, cp8, len }
      (fill mem cp8 (len / 4 * 4) (c.setWidth 8)) := by
  have ends : Ends c { mem, point := .fill32 cp8, cp8, len } _ :=
    ends_fill32 noJump
  rw [fill_again (by omega)] at ends
  exact ends.step rfl

/-- After the double words, or without any. -/
theorem ends_check32
    (noJump : ¬ (cp8 % 8 = 0 ∧ len ≥ 8))
    (aligned : cp8 % 4 = 0) :
    Ends c { mem, point := .check32, cp8, len }
      (fill mem cp8 (if len < 4 then len else len / 4 * 4) (c.setWidth 8)) := by
  by_cases short : len < 4
  · have next :
        setNext c { mem, point := .check32, cp8, len } =
          some { mem, point := .fill8, cp8, len } := by
      simp only [setNext]
      rw [if_neg (by omega)]
    rw [if_pos short]
    exact (ends_fill8 short).step next
  · have next :
        setNext c { mem, point := .check32, cp8, len } =
          some { mem, point := .retry32, cp8, len } := by
      simp only [setNext]
      rw [if_pos (by omega)]
    rw [if_neg short]
    exact (ends_retry32 noJump (by omega)).step next

/-- The double words are set one after the other. -/
theorem ends_fill64
    {cp64 : Nat}
    (aligned : cp64 % 8 = 0) :
    Ends c { mem, point := .fill64 cp64, cp8, len }
      (fill mem cp64
        (len / 8 * 8 +
          if len % 8 < 4 then len % 8 else len % 8 / 4 * 4)
        (c.setWidth 8)) := by
  induction len using Nat.strong_induction_on generalizing mem cp64 with
  | _ len inductionHypothesis =>
      by_cases more : len ≥ 8
      · have word :
            storeWord mem 8 cp64 (setVal64 c) =
              fill mem cp64 8 (c.setWidth 8) :=
          storeWord_eq fun i less => byteOf_setVal64 c less
        have next :
            setNext c { mem, point := .fill64 cp64, cp8, len } =
              some
                { mem := fill mem cp64 8 (c.setWidth 8)
                  point := .fill64 (cp64 + 8)
                  cp8
                  len := len - 8 } := by
          simp only [setNext, word]
          rw [if_pos more]
        have rest :
            Ends c
              { mem := fill mem cp64 8 (c.setWidth 8)
                point := .fill64 (cp64 + 8)
                cp8
                len := len - 8 } _ :=
          inductionHypothesis (len - 8) (by omega) (by omega)
        have left : (len - 8) % 8 = len % 8 := by omega
        have words : 8 + (len - 8) / 8 * 8 = len / 8 * 8 := by omega
        rw [fill_fill, left, ← Nat.add_assoc, words] at rest
        exact rest.step next
      · have next :
            setNext c { mem, point := .fill64 cp64, cp8, len } =
              some { mem, point := .check32, cp8 := cp64, len } := by
          simp only [setNext]
          rw [if_neg more]
        have none : len / 8 * 8 = 0 := by omega
        have left : len % 8 = len := by omega
        rw [none, left, Nat.zero_add]
        exact (ends_check32 (by omega) (by omega)).step next

/-- The bytes before a word boundary. -/
def unaligned (s : Nat) : Nat :=
  (4 - s % 4) % 4

/--
How many bytes from the start on are set.  After the bytes up to a word
boundary come the double words or the words; if words were set, the bytes after
them are left out.
-/
def setBytes (s n : Nat) : Nat :=
  let len := n - unaligned s
  if n < unaligned s + 4 then
    n
  else if (s + unaligned s) % 8 = 0 then
    unaligned s + (len / 8 * 8 + if len % 8 < 4 then len % 8 else 4)
  else
    unaligned s + len / 4 * 4

theorem setBytes_le (s n : Nat) :
    setBytes s n ≤ n := by
  simp only [setBytes]
  split_ifs <;> omega

/-- From a word boundary on. -/
theorem setBytes_aligned
    (aligned : cp8 % 4 = 0) :
    setBytes cp8 len =
      if cp8 % 8 = 0 then
        len / 8 * 8 + if len % 8 < 4 then len % 8 else len % 8 / 4 * 4
      else if len < 4 then
        len
      else
        len / 4 * 4 := by
  have none : unaligned cp8 = 0 := by
    rw [unaligned, aligned]
  simp only [setBytes, none, Nat.add_zero, Nat.zero_add, Nat.sub_zero]
  split_ifs <;> omega

/-- A byte before a word boundary is set. -/
theorem setBytes_unaligned
    (notAligned : cp8 % 4 ≠ 0) :
    setBytes cp8 (len + 1) = 1 + setBytes (cp8 + 1) len := by
  have closer : unaligned cp8 = unaligned (cp8 + 1) + 1 := by
    simp only [unaligned]
    omega
  have boundary : cp8 + unaligned cp8 = cp8 + 1 + unaligned (cp8 + 1) := by
    omega
  have left : len + 1 - unaligned cp8 = len - unaligned (cp8 + 1) := by
    omega
  simp only [setBytes]
  rw [boundary, left]
  split_ifs <;> omega

/-- At a word boundary without a double word to set. -/
theorem ends_aligned
    (aligned : cp8 % 4 = 0)
    (noJump : ¬ (cp8 % 8 = 0 ∧ len ≥ 8)) :
    Ends c { mem, point := .check32, cp8, len }
      (fill mem cp8 (setBytes cp8 len) (c.setWidth 8)) := by
  have same : (if len < 4 then len else len / 4 * 4) = setBytes cp8 len := by
    rw [setBytes_aligned aligned]
    split_ifs <;> omega
  rw [← same]
  exact ends_check32 noJump aligned

/-- At a double word boundary with a double word to set. -/
theorem ends_retry64
    (aligned : cp8 % 8 = 0) :
    Ends c { mem, point := .retry64, cp8, len }
      (fill mem cp8 (setBytes cp8 len) (c.setWidth 8)) := by
  have ends : Ends c { mem, point := .fill64 cp8, cp8, len } _ :=
    ends_fill64 aligned
  rw [setBytes_aligned (by omega), if_pos aligned]
  exact ends.step rfl

/-- Bytes are set up to a word boundary, and then whatever can be set there. -/
theorem ends_bytes
    (notAligned : cp8 % 4 ≠ 0) :
    Ends c { mem, point := .fill8, cp8, len }
      (fill mem cp8 (setBytes cp8 len) (c.setWidth 8)) := by
  induction len generalizing mem cp8 with
  | zero =>
      rw [Nat.le_zero.mp (setBytes_le cp8 0), fill_zero]
      exact ends_of_returns rfl
  | succ len inductionHypothesis =>
      have byte :
          storeWord mem 1 cp8 (setVal8 c) = fill mem cp8 1 (c.setWidth 8) :=
        storeWord_eq fun i less => by
          rw [Nat.lt_one_iff.mp less]
          exact byteOf_setVal8 c
      have next : ∀ point,
          (if (cp8 + 1) % 8 = 0 ∧ len ≥ 8 then SetPoint.retry64
            else if (cp8 + 1) % 4 = 0 ∧ len ≥ 4 then .retry32
            else .fill8) = point →
          setNext c { mem, point := .fill8, cp8, len := len + 1 } =
            some
              { mem := fill mem cp8 1 (c.setWidth 8)
                point
                cp8 := cp8 + 1
                len } := by
        intro point chosen
        simp only [setNext, byte]
        rw [if_pos (Nat.succ_pos len), Nat.add_sub_cancel, ← chosen]
        split_ifs <;> rfl
      rw [setBytes_unaligned notAligned, ← fill_fill]
      by_cases double : (cp8 + 1) % 8 = 0 ∧ len ≥ 8
      · exact (ends_retry64 double.1).step (next _ (if_pos double))
      by_cases word : (cp8 + 1) % 4 = 0 ∧ len ≥ 4
      · have same : setBytes (cp8 + 1) len = len / 4 * 4 := by
          rw [setBytes_aligned word.1]
          split_ifs <;> omega
        rw [same]
        exact (ends_retry32 double word.2).step
          (next _ (by rw [if_neg double, if_pos word]))
      have stays := next _ (by rw [if_neg double, if_neg word])
      by_cases aligned : (cp8 + 1) % 4 = 0
      · -- fewer bytes than a word are left
        have same : setBytes (cp8 + 1) len = len := by
          rw [setBytes_aligned aligned]
          split_ifs <;> omega
        rw [same]
        exact (ends_fill8 (by omega)).step stays
      · exact (inductionHypothesis aligned).step stays

/-- `memset` returns the start of the range, and has set its first bytes. -/
theorem memset_eq
    (mem : Bytes)
    (s : Nat)
    (c : BitVec 32)
    (n : Nat) :
    ∃ steps,
      memset steps mem s c n =
        some (s, fill mem s (setBytes s n) (c.setWidth 8)) := by
  suffices ends :
      Ends c { mem, point := .start, cp8 := s, len := n }
        (fill mem s (setBytes s n) (c.setWidth 8)) by
    obtain ⟨steps, result⟩ := ends
    exact ⟨steps, by rw [memset, result]; rfl⟩
  by_cases double : s % 8 = 0 ∧ n ≥ 8
  · have next :
        setNext c { mem, point := .start, cp8 := s, len := n } =
          some { mem, point := .retry64, cp8 := s, len := n } := by
      simp only [setNext]
      rw [if_pos double]
    exact (ends_retry64 double.1).step next
  have next :
      setNext c { mem, point := .start, cp8 := s, len := n } =
        some { mem, point := .check32, cp8 := s, len := n } := by
    simp only [setNext]
    rw [if_neg double]
  refine .step next ?_
  by_cases aligned : s % 4 = 0
  · exact ends_aligned aligned double
  · have bytes :
        setNext c { mem, point := .check32, cp8 := s, len := n } =
          some { mem, point := .fill8, cp8 := s, len := n } := by
      simp only [setNext]
      rw [if_neg fun both => aligned both.1]
    exact (ends_bytes aligned).step bytes

/-- The memory at the return does not depend on how many steps there may be. -/
theorem setLoop_unique
    {steps more : Nat}
    {st : SetState}
    {after : Bytes}
    (result : setLoop c steps st = some final)
    (same : setLoop c more st = some after) :
    final = after := by
  induction steps generalizing more st with
  | zero => cases result
  | succ steps inductionHypothesis =>
      cases more with
      | zero => cases same
      | succ more =>
          rw [setLoop] at result same
          cases next : setNext c st with
          | none =>
              rw [next] at result same
              exact Option.some.inj (result.symm.trans same)
          | some st' =>
              rw [next] at result same
              exact inductionHypothesis result same

/-- Whatever `memset` returns with is a range that is set from the start on. -/
theorem memset_after
    {steps s n : Nat}
    {result : Nat × Bytes}
    (returned : memset steps mem s c n = some result) :
    result = (s, fill mem s (setBytes s n) (c.setWidth 8)) := by
  obtain ⟨enough, same⟩ := memset_eq mem s c n
  rw [memset, Option.map_eq_some_iff] at returned same
  obtain ⟨after, ends, rfl⟩ := returned
  obtain ⟨after', ends', pair⟩ := same
  rw [← pair, setLoop_unique ends ends']

end Loops

/-! ## The range that is set -/

/--
`memset` returns the start of the range, sets every byte of the range to the
lowest byte of the value, and changes no other byte.
-/
def MemsetRight
    (mem : Bytes)
    (s : Nat)
    (c : BitVec 32)
    (n : Nat) : Prop :=
  ∃ steps after,
    memset steps mem s c n = some (s, after) ∧
      (∀ a, s ≤ a → a < s + n → after a = c.setWidth 8) ∧
      ∀ a, a < s ∨ s + n ≤ a → after a = mem a

/-- The range is set exactly when the bytes that are left out hold the value. -/
theorem memsetRight_iff
    (mem : Bytes)
    (s : Nat)
    (c : BitVec 32)
    (n : Nat) :
    MemsetRight mem s c n ↔
      ∀ a, s + setBytes s n ≤ a → a < s + n → mem a = c.setWidth 8 := by
  have within := setBytes_le s n
  constructor
  · rintro ⟨steps, after, returned, isSet, _⟩ a leftOut inside
    have result := memset_after returned
    simp only [Prod.mk.injEq, true_and] at result
    have value := isSet a (by omega) inside
    rw [result, fill, if_neg (by omega)] at value
    exact value
  · intro leftOut
    obtain ⟨steps, returned⟩ := memset_eq mem s c n
    refine ⟨steps, _, returned, fun a above below => ?_, fun a outside => ?_⟩
    · by_cases reached : a < s + setBytes s n
      · rw [fill, if_pos ⟨above, reached⟩]
      · rw [fill, if_neg (fun both => reached both.2)]
        exact leftOut a (Nat.not_lt.mp reached) below
    · rw [fill, if_neg (by omega)]

/-- Five bytes from a double word boundary: the fifth is not set. -/
theorem memset_leaves_fifth :
    ¬ MemsetRight (fun _ => 0) 8 1 5 := by
  rintro ⟨steps, after, returned, isSet, _⟩
  have result := memset_after returned
  simp only [Prod.mk.injEq, true_and] at result
  have value := isSet 12 (by decide) (by decide)
  rw [result] at value
  revert value
  decide

end RiscvWorkshop.Klib
