import Mathlib
import RiscvWorkshop.Bitops

namespace RiscvWorkshop.Bitops

/-!
# The first and the last bit of a word

There are words of 16, 32 and 64 bits.  The first bit is looked for with masks
for the lower end of what is left of the word, and the last one with masks for
the upper end.
-/

/-- `BITOPS_LOWER_MASK32`. -/
def bitopsLowerMask32 (len : Nat) : BitVec 64 :=
  (1#32 <<< len).setWidth 64 - 1

/-- `BITOPS_LOWER_MASK16`. -/
def bitopsLowerMask16 (len : Nat) : BitVec 64 :=
  bitopsLowerMask32 len

/-- `BITOPS_UPPER_MASK64`. -/
def bitopsUpperMask64 (len : Nat) : BitVec 64 :=
  bitopsLowerMask64 len <<< (64 - len)

/-- `BITOPS_UPPER_MASK32`. -/
def bitopsUpperMask32 (len : Nat) : BitVec 64 :=
  bitopsLowerMask32 len <<< (32 - len)

/-- `BITOPS_UPPER_MASK16`. -/
def bitopsUpperMask16 (len : Nat) : BitVec 64 :=
  bitopsLowerMask16 len <<< (16 - len)

section Search

variable {w : Nat}

/-- The loop for the first bit; a word is widened to the type of the masks. -/
def ffsHalves (mask : Nat → BitVec 64) : Nat → BitVec w → Nat → Nat
  | 0, _, v => v
  | turns + 1, n, v =>
      let b := 2 ^ turns
      if n.setWidth 64 &&& mask b = 0 then
        ffsHalves mask turns (n >>> b) (v + b)
      else
        ffsHalves mask turns n v

/-- The loop for the last bit. -/
def flsHalves (mask : Nat → BitVec 64) : Nat → BitVec w → Nat → Nat
  | 0, _, v => v
  | turns + 1, n, v =>
      let b := 2 ^ turns
      if n.setWidth 64 &&& mask b = 0 then
        flsHalves mask turns (n <<< b) (v - b)
      else
        flsHalves mask turns n v

/-- The search for the first bit of a word of `2 ^ turns` bits. -/
def ffsWord
    (mask : Nat → BitVec 64)
    (turns : Nat)
    (n : BitVec w) : Nat :=
  if n = 0 then 0 else ffsHalves mask turns n 1

/-- The search for the last bit of a word of `2 ^ turns` bits. -/
def flsWord
    (mask : Nat → BitVec 64)
    (turns : Nat)
    (n : BitVec w) : Nat :=
  if n = 0 then 0 else flsHalves mask turns n w

end Search

/-- The types of which a bitmap is made. -/
inductive WordType where
  | uint16
  | uint32
  | uint64
  deriving DecidableEq

/-- The bits of a word. -/
def WordType.bits : WordType → Nat
  | .uint16 => 16
  | .uint32 => 32
  | .uint64 => 64

/-- `bitops_ffs16`, `bitops_ffs32` and `bitops_ffs64`. -/
def WordType.ffs : (type : WordType) → BitVec type.bits → Nat
  | .uint16 => ffsWord bitopsLowerMask16 4
  | .uint32 => ffsWord bitopsLowerMask32 5
  | .uint64 => ffsWord bitopsLowerMask64 6

/-- `bitops_fls16`, `bitops_fls32` and `bitops_fls64`. -/
def WordType.fls : (type : WordType) → BitVec type.bits → Nat
  | .uint16 => flsWord bitopsUpperMask16 4
  | .uint32 => flsWord bitopsUpperMask32 5
  | .uint64 => flsWord bitopsUpperMask64 6

/-! ## The masks -/

/-- A mask has the bits from one place up to another. -/
def MaskOf
    (mask : BitVec 64)
    (low high : Nat) : Prop :=
  ∀ i, mask.getLsbD i = decide (low ≤ i ∧ i < high)

section Masks

variable {len w low high : Nat}
variable {n : BitVec w}

theorem bitopsLowerMask64_maskOf
    (small : len < 64) :
    MaskOf (bitopsLowerMask64 len) 0 len := by
  intro i
  rw [bitopsLowerMask64_getLsbD small]
  simp

/-- The masks are the same where the shorter one can be shifted so far. -/
theorem bitopsLowerMask32_eq
    (small : len < 32) :
    bitopsLowerMask32 len = bitopsLowerMask64 len := by
  have widened : (1#32 <<< len).setWidth 64 = 1#64 <<< len := by
    refine BitVec.eq_of_getLsbD_eq fun i inWord => ?_
    rw [BitVec.getLsbD_setWidth, ← BitVec.twoPow_eq, ← BitVec.twoPow_eq,
      BitVec.getLsbD_twoPow, BitVec.getLsbD_twoPow]
    simp [inWord, small, Nat.lt_trans small (by decide : 32 < 64)]
  rw [bitopsLowerMask32, bitopsLowerMask64, widened]

/-- A lower mask that is shifted to the upper end of a word. -/
theorem MaskOf.shift
    {mask : BitVec 64}
    (isMask : MaskOf mask 0 len)
    (fits : len ≤ w)
    (inWord : w ≤ 64) :
    MaskOf (mask <<< (w - len)) (w - len) w := by
  intro i
  rw [BitVec.getLsbD_shiftLeft, isMask]
  by_cases above : w - len ≤ i
  · by_cases below : i < w
    · have one : i - (w - len) < len := by omega
      have two : i < 64 := by omega
      simp [above, below, one, two]
    · have one : ¬ i - (w - len) < len := by omega
      simp [below, one]
  · simp [above, Nat.not_le.mp above]

/-- A word meets a mask in the bits between its places. -/
theorem MaskOf.and_eq_zero
    {mask : BitVec 64}
    (isMask : MaskOf mask low high)
    (fits : high ≤ 64) :
    n.setWidth 64 &&& mask = 0 ↔
      ∀ i, low ≤ i → i < high → n.getLsbD i = false := by
  constructor
  · intro none i above below
    have bit : (n.setWidth 64 &&& mask).getLsbD i = false := by
      rw [none]
      exact BitVec.getLsbD_zero
    rw [BitVec.getLsbD_and, isMask i, BitVec.getLsbD_setWidth,
      decide_eq_true (Nat.lt_of_lt_of_le below fits),
      decide_eq_true ⟨above, below⟩, Bool.true_and, Bool.and_true] at bit
    exact bit
  · intro none
    refine BitVec.eq_of_getLsbD_eq fun i inWord => ?_
    rw [BitVec.getLsbD_and, isMask, BitVec.getLsbD_setWidth]
    by_cases between : low ≤ i ∧ i < high
    · simp [none i between.1 between.2]
    · simp [between]

end Masks

/-! ## The searches -/

/-- A bit of a word with none below it. -/
structure FirstOf
    {w : Nat}
    (n : BitVec w)
    (first : Nat) : Prop where
  set : n.getLsbD first = true
  clear : ∀ i < first, n.getLsbD i = false

/-- A bit of a word with none above it. -/
structure LastOf
    {w : Nat}
    (n : BitVec w)
    (last : Nat) : Prop where
  set : n.getLsbD last = true
  clear : ∀ i, last < i → n.getLsbD i = false

section Searches

variable {w first last turns : Nat}
variable {n : BitVec w}
variable {mask : Nat → BitVec 64}

/-- A bit that is set is in the word. -/
theorem lt_of_getLsbD
    {i : Nat}
    (set : n.getLsbD i = true) :
    i < w := by
  by_contra big
  rw [BitVec.getLsbD_of_ge n i (Nat.not_lt.mp big)] at set
  cases set

/-- A word with a bit is not zero. -/
theorem ne_zero_of_getLsbD
    {i : Nat}
    (set : n.getLsbD i = true) :
    n ≠ 0 := by
  rintro rfl
  simp at set

/-- The loop adds the place of the first bit, which is in its range. -/
theorem ffsHalves_eq
    (isMask : ∀ turn < turns, MaskOf (mask (2 ^ turn)) 0 (2 ^ turn))
    (inMask : ∀ turn < turns, 2 ^ turn ≤ 64)
    (firstOf : FirstOf n first)
    (inRange : first < 2 ^ turns)
    (v : Nat) :
    ffsHalves mask turns n v = v + first := by
  induction turns generalizing n first v with
  | zero =>
      have isZero : first = 0 := Nat.lt_one_iff.mp inRange
      rw [ffsHalves, isZero, Nat.add_zero]
  | succ turns inductionHypothesis =>
      have fewer := fun turn (less : turn < turns) =>
        isMask turn (Nat.lt_succ_of_lt less)
      have fewerIn := fun turn (less : turn < turns) =>
        inMask turn (Nat.lt_succ_of_lt less)
      rw [ffsHalves]
      simp only [(isMask turns turns.lt_succ_self).and_eq_zero
        (inMask turns turns.lt_succ_self)]
      split
      case isTrue none =>
        have above : 2 ^ turns ≤ first := by
          by_contra below
          have bit := none first (Nat.zero_le first) (Nat.not_le.mp below)
          rw [firstOf.set] at bit
          cases bit
        have shifted : FirstOf (n >>> 2 ^ turns) (first - 2 ^ turns) := by
          constructor
          · rw [BitVec.getLsbD_ushiftRight, Nat.add_sub_cancel' above]
            exact firstOf.set
          · intro i before
            rw [BitVec.getLsbD_ushiftRight]
            exact firstOf.clear _ (by omega)
        rw [inductionHypothesis fewer fewerIn shifted
          (by rw [pow_succ] at inRange; omega)]
        omega
      case isFalse bit =>
        have below : first < 2 ^ turns := by
          by_contra above
          exact bit fun i _ inMask => firstOf.clear i (by omega)
        exact inductionHypothesis fewer fewerIn firstOf below v

/-- The loop takes off the distance of the last bit from the upper end. -/
theorem flsHalves_eq
    (isMask : ∀ turn < turns, MaskOf (mask (2 ^ turn)) (w - 2 ^ turn) w)
    (inMask : w ≤ 64)
    (lastOf : LastOf n last)
    (inRange : w ≤ last + 2 ^ turns)
    (v : Nat) :
    flsHalves mask turns n (v + (w - 1 - last)) = v := by
  have inWord := lt_of_getLsbD lastOf.set
  induction turns generalizing n last with
  | zero =>
      have none : w - 1 - last = 0 := by
        rw [pow_zero] at inRange
        omega
      rw [flsHalves, none, Nat.add_zero]
  | succ turns inductionHypothesis =>
      have fewer := fun turn (less : turn < turns) =>
        isMask turn (Nat.lt_succ_of_lt less)
      rw [flsHalves]
      simp only [(isMask turns turns.lt_succ_self).and_eq_zero inMask]
      split
      case isTrue none =>
        have below : last < w - 2 ^ turns := by
          by_contra above
          have bit := none last (Nat.not_lt.mp above) inWord
          rw [lastOf.set] at bit
          cases bit
        have shifted : LastOf (n <<< 2 ^ turns) (last + 2 ^ turns) := by
          constructor
          · rw [BitVec.getLsbD_shiftLeft, Nat.add_sub_cancel, lastOf.set]
            simp
            omega
          · intro i after
            rw [BitVec.getLsbD_shiftLeft, lastOf.clear _ (by omega),
              Bool.and_false]
        have moved :
            v + (w - 1 - last) - 2 ^ turns =
              v + (w - 1 - (last + 2 ^ turns)) := by
          omega
        rw [moved]
        exact inductionHypothesis fewer shifted
          (by rw [pow_succ] at inRange; omega) (by omega)
      case isFalse bit =>
        have above : w ≤ last + 2 ^ turns := by
          by_contra below
          exact bit fun i inMask _ => lastOf.clear i (by omega)
        exact inductionHypothesis fewer lastOf above inWord

/-- A word that is not zero has a first bit and a last one. -/
theorem exists_firstOf
    (some_bit : n ≠ 0) :
    ∃ first, FirstOf n first := by
  classical
  have found : ∃ i, n.getLsbD i = true := by
    by_contra none
    refine some_bit (BitVec.eq_of_getLsbD_eq fun i inWord => ?_)
    have clear := not_exists.mp none i
    simpa using clear
  exact ⟨Nat.find found, Nat.find_spec found, fun i before =>
    Bool.eq_false_of_not_eq_true (Nat.find_min found before)⟩

theorem exists_lastOf
    (some_bit : n ≠ 0) :
    ∃ last, LastOf n last := by
  classical
  obtain ⟨first, firstOf⟩ := exists_firstOf some_bit
  have inWord := lt_of_getLsbD firstOf.set
  refine ⟨Nat.findGreatest (fun i => n.getLsbD i = true) w, ?_, ?_⟩
  · exact Nat.findGreatest_spec (P := fun i => n.getLsbD i = true) inWord.le
      firstOf.set
  · intro i after
    by_cases inside : i ≤ w
    · exact Bool.eq_false_of_not_eq_true
        (Nat.findGreatest_is_greatest after inside)
    · exact BitVec.getLsbD_of_ge n i (by omega)

/-- What the search for the first bit of a word returns. -/
theorem ffsWord_eq
    (isMask : ∀ turn < turns, MaskOf (mask (2 ^ turn)) 0 (2 ^ turn))
    (inMask : w ≤ 64)
    (width : w = 2 ^ turns) :
    (ffsWord mask turns n = 0 ↔ n = 0) ∧
      ∀ first, FirstOf n first → ffsWord mask turns n = first + 1 := by
  have inMasks : ∀ turn < turns, 2 ^ turn ≤ 64 := fun turn less =>
    (Nat.pow_le_pow_right (by decide) less.le).trans (width ▸ inMask)
  have found :
      ∀ first, FirstOf n first → ffsWord mask turns n = first + 1 := by
    intro first firstOf
    have some_bit := ne_zero_of_getLsbD firstOf.set
    rw [ffsWord, if_neg some_bit,
      ffsHalves_eq isMask inMasks firstOf
        (width ▸ lt_of_getLsbD firstOf.set),
      Nat.add_comm]
  refine ⟨⟨fun none => ?_, fun zero => if_pos zero⟩, found⟩
  by_contra some_bit
  obtain ⟨first, firstOf⟩ := exists_firstOf some_bit
  rw [found first firstOf] at none
  cases none

/-- What the search for the last bit of a word returns. -/
theorem flsWord_eq
    (isMask : ∀ turn < turns, MaskOf (mask (2 ^ turn)) (w - 2 ^ turn) w)
    (inMask : w ≤ 64)
    (width : w = 2 ^ turns) :
    (flsWord mask turns n = 0 ↔ n = 0) ∧
      ∀ last, LastOf n last → flsWord mask turns n = last + 1 := by
  have found :
      ∀ last, LastOf n last → flsWord mask turns n = last + 1 := by
    intro last lastOf
    have some_bit := ne_zero_of_getLsbD lastOf.set
    have inWord := lt_of_getLsbD lastOf.set
    have start : w = last + 1 + (w - 1 - last) := by omega
    have ended :=
      flsHalves_eq isMask inMask lastOf (width ▸ Nat.le_add_left w last)
        (last + 1)
    rw [← start] at ended
    rw [flsWord, if_neg some_bit, ended]
  refine ⟨⟨fun none => ?_, fun zero => if_pos zero⟩, found⟩
  by_contra some_bit
  obtain ⟨last, lastOf⟩ := exists_lastOf some_bit
  rw [found last lastOf] at none
  cases none

end Searches

/-- The search of 64-bit bitmaps is the one of this width. -/
theorem bitopsFfs64_eq_ffs
    (n : BitVec 64) :
    bitopsFfs64 n = WordType.uint64.ffs n := by
  have loops :
      ∀ turns (n : BitVec 64) v,
        ffsLoop turns n v = ffsHalves bitopsLowerMask64 turns n v := by
    intro turns
    induction turns with
    | zero =>
        exact fun n v => rfl
    | succ turns inductionHypothesis =>
        intro n v
        simp only [ffsLoop, ffsHalves, BitVec.setWidth_eq, inductionHypothesis]
  show bitopsFfs64 n = ffsWord bitopsLowerMask64 6 n
  rw [bitopsFfs64, ffsWord, loops]

section Types

variable {type : WordType}

/-- The three searches for the first bit are right. -/
theorem WordType.ffs_eq
    (n : BitVec type.bits) :
    (type.ffs n = 0 ↔ n = 0) ∧
      ∀ first, FirstOf n first → type.ffs n = first + 1 := by
  have masks64 : ∀ turn < 6, MaskOf (bitopsLowerMask64 (2 ^ turn)) 0 (2 ^ turn) :=
    fun turn less => bitopsLowerMask64_maskOf
      (Nat.pow_lt_pow_right (by decide : 1 < 2) less)
  have masks32 : ∀ turn < 5, MaskOf (bitopsLowerMask32 (2 ^ turn)) 0 (2 ^ turn) := by
    intro turn less
    rw [bitopsLowerMask32_eq (Nat.pow_lt_pow_right (by decide : 1 < 2) less)]
    exact masks64 turn (Nat.lt_succ_of_lt less)
  cases type with
  | uint16 =>
      exact ffsWord_eq (fun turn less => masks32 turn (Nat.lt_succ_of_lt less))
        (by decide) rfl
  | uint32 => exact ffsWord_eq masks32 (by decide) rfl
  | uint64 => exact ffsWord_eq masks64 (by decide) rfl

/-- The three searches for the last bit are right. -/
theorem WordType.fls_eq
    (n : BitVec type.bits) :
    (type.fls n = 0 ↔ n = 0) ∧
      ∀ last, LastOf n last → type.fls n = last + 1 := by
  have power : ∀ {turn turns : Nat}, turn < turns → 2 ^ turn < 2 ^ turns :=
    fun less => Nat.pow_lt_pow_right (by decide : 1 < 2) less
  have masks32 : ∀ turn < 5, MaskOf (bitopsLowerMask32 (2 ^ turn)) 0 (2 ^ turn) := by
    intro turn less
    rw [bitopsLowerMask32_eq (power less)]
    exact bitopsLowerMask64_maskOf (power (Nat.lt_succ_of_lt less))
  cases type with
  | uint16 =>
      refine flsWord_eq (fun turn less => ?_) (by decide) rfl
      exact (masks32 turn (Nat.lt_succ_of_lt less)).shift (power less).le
        (by decide)
  | uint32 =>
      refine flsWord_eq (fun turn less => ?_) (by decide) rfl
      exact (masks32 turn less).shift (power less).le (by decide)
  | uint64 =>
      refine flsWord_eq (fun turn less => ?_) (by decide) rfl
      exact (bitopsLowerMask64_maskOf (power less)).shift (power less).le
        (by decide)

end Types

end RiscvWorkshop.Bitops
