import Mathlib

namespace RiscvWorkshop.Klib

/-!
# Fixed-point numbers

A number has 17 bits before the point and 14 behind it, in a signed word of 32
bits.  The fraction is an unsigned constant, so that the conversions to integers
and the comparison that rests on them compute with unsigned words.
-/

/-- `fpa32`. -/
abbrev Fpa32 := BitVec 32

/-- `FIXED_POINT_FRACTION`. -/
def fixedPointFraction : BitVec 32 :=
  1#32 <<< 14

/-- `fixed_point_to_frac`. -/
def fixedPointToFrac (x : Fpa32) : BitVec 32 :=
  x &&& (fixedPointFraction - 1)

/-- `fixed_point_to_int_zero`: the number is converted to an unsigned one. -/
def fixedPointToIntZero (x : Fpa32) : BitVec 32 :=
  x / fixedPointFraction

/-- `fixed_point_to_int_near`: only the test of the sign is a signed one. -/
def fixedPointToIntNear (x : Fpa32) : BitVec 32 :=
  if 0 ≤ x.toInt then
    (x + fixedPointFraction / 2) / fixedPointFraction
  else
    (x - fixedPointFraction / 2) / fixedPointFraction

/-- `fixed_point_cmp_near`, whose comparisons are unsigned. -/
def fixedPointCmpNear (x y : Fpa32) : Int :=
  if fixedPointToIntNear x > fixedPointToIntNear y then
    1
  else if fixedPointToIntNear x < fixedPointToIntNear y then
    -1
  else if fixedPointToFrac x > fixedPointToFrac y then
    1
  else if fixedPointToFrac x < fixedPointToFrac y then
    -1
  else
    0

/-- No integer is nearer to a number of 2^14ths. -/
def NearestInt (x rounded : Int) : Prop :=
  ∀ other : Int,
    (x - 16384 * rounded).natAbs ≤ (x - 16384 * other).natAbs

/--
Two numbers of one sign have one integer part, or are rounded to different
integers: no integer lies between them with both within a half of it.
-/
def SameSide (x y : Int) : Prop :=
  (0 ≤ x ↔ 0 ≤ y) ∧
    (x / 16384 = y / 16384 ∨ (x + 8192) / 16384 ≠ (y + 8192) / 16384)

/-- A number at the lower end and one at the upper end of the range. -/
def Extremes (x y : Int) : Prop :=
  x < -2147475456 ∧ 2147475456 ≤ y ∨
    x < -2147475456 ∧ 2147459072 ≤ y ∧ x % 16384 < y % 16384 ∨
    x < -2147459072 ∧ 2147475456 ≤ y ∧ x % 16384 < y % 16384

section Values

variable (x y : Fpa32)

/-- The fraction is what is left of a division. -/
theorem toNat_fixedPointToFrac :
    ((fixedPointToFrac x).toNat : Int) = x.toInt % 16384 := by
  rw [fixedPointToFrac, BitVec.toNat_and]
  have mask : (fixedPointFraction - 1).toNat = 2 ^ 14 - 1 := rfl
  rw [mask, Nat.and_two_pow_sub_one_eq_mod, BitVec.toInt_eq_toNat_cond]
  split <;> omega

/-- A negative number is taken for what it is modulo 2^32. -/
theorem toNat_fixedPointToIntZero :
    ((fixedPointToIntZero x).toNat : Int) =
      if 0 ≤ x.toInt then x.toInt / 16384 else x.toInt / 16384 + 262144 := by
  rw [fixedPointToIntZero, BitVec.toNat_udiv, BitVec.toInt_eq_toNat_cond]
  have fraction : fixedPointFraction.toNat = 16384 := rfl
  have bound := x.isLt
  rw [fraction]
  split <;> split <;> omega

theorem toNat_fixedPointToIntNear :
    ((fixedPointToIntNear x).toNat : Int) =
      if 0 ≤ x.toInt then
        (x.toInt + 8192) / 16384
      else
        (x.toInt + 8192) / 16384 + 262143 := by
  have fraction : fixedPointFraction.toNat = 16384 := rfl
  have half : (fixedPointFraction / 2).toNat = 8192 := rfl
  have bound := x.isLt
  rw [fixedPointToIntNear]
  split
  case isTrue positive =>
    rw [BitVec.toInt_eq_toNat_cond] at positive ⊢
    rw [BitVec.toNat_udiv, BitVec.toNat_add, fraction, half]
    split at positive <;> omega
  case isFalse negative =>
    rw [BitVec.toInt_eq_toNat_cond] at negative ⊢
    rw [BitVec.toNat_udiv, BitVec.toNat_sub, fraction, half]
    split at negative <;> omega

/-- The comparison is that of the rounded numbers, and then of the fractions. -/
theorem fixedPointCmpNear_pos :
    0 < fixedPointCmpNear x y ↔
      (fixedPointToIntNear y).toNat < (fixedPointToIntNear x).toNat ∨
        (fixedPointToIntNear y).toNat = (fixedPointToIntNear x).toNat ∧
          (fixedPointToFrac y).toNat < (fixedPointToFrac x).toNat := by
  simp only [fixedPointCmpNear, gt_iff_lt, BitVec.lt_def]
  split_ifs <;> omega

theorem fixedPointCmpNear_neg :
    fixedPointCmpNear x y < 0 ↔
      (fixedPointToIntNear x).toNat < (fixedPointToIntNear y).toNat ∨
        (fixedPointToIntNear x).toNat = (fixedPointToIntNear y).toNat ∧
          (fixedPointToFrac x).toNat < (fixedPointToFrac y).toNat := by
  simp only [fixedPointCmpNear, gt_iff_lt, BitVec.lt_def]
  split_ifs <;> omega

/-- Two numbers have one sign. -/
theorem sign_eq_sign_iff
    (a b : Int) :
    a.sign = b.sign ↔ (0 < a ↔ 0 < b) ∧ (a < 0 ↔ b < 0) := by
  rcases Int.lt_trichotomy a 0 with aNeg | rfl | aPos
  · rcases Int.lt_trichotomy b 0 with bNeg | rfl | bPos
    · simp [Int.sign_eq_neg_one_of_neg, aNeg, bNeg]; omega
    · simp [Int.sign_eq_neg_one_of_neg, aNeg]
    · simp [Int.sign_eq_neg_one_of_neg, Int.sign_eq_one_of_pos, aNeg, bPos]; omega
  · rcases Int.lt_trichotomy b 0 with bNeg | rfl | bPos
    · simp [Int.sign_eq_neg_one_of_neg, bNeg]
    · simp
    · simp [Int.sign_eq_one_of_pos, bPos]
  · rcases Int.lt_trichotomy b 0 with bNeg | rfl | bPos
    · simp [Int.sign_eq_neg_one_of_neg, Int.sign_eq_one_of_pos, aPos, bNeg]; omega
    · simp [Int.sign_eq_one_of_pos, aPos]
    · simp [Int.sign_eq_one_of_pos, aPos, bPos]; omega

/-- Numbers in the order of what they are rounded to, and then of their fractions. -/
theorem nearest_order
    (a b : Int) :
    (((b + 8192) / 16384 < (a + 8192) / 16384 ∨
            (b + 8192) / 16384 = (a + 8192) / 16384 ∧
              b % 16384 < a % 16384 ↔
          0 < a - b) ∧
        ((a + 8192) / 16384 < (b + 8192) / 16384 ∨
            (a + 8192) / 16384 = (b + 8192) / 16384 ∧
              a % 16384 < b % 16384 ↔
          a - b < 0)) ↔
      (a / 16384 = b / 16384 ∨ (a + 8192) / 16384 ≠ (b + 8192) / 16384) := by
  rcases Int.lt_trichotomy ((a + 8192) / 16384) ((b + 8192) / 16384) with
    less | same | more
  · omega
  · by_cases floor : a / 16384 = b / 16384
    · exact iff_of_true ⟨by omega, by omega⟩ (.inl floor)
    · refine iff_of_false (fun order => ?_) (by omega)
      have greater := order.1
      have smaller := order.2
      omega
  · omega

/-- The rounded numbers of a negative number are those of large positive ones. -/
theorem negative_order
    {a b near : Int}
    (negative : a < 0)
    (low : -2147483648 ≤ a)
    (positive : 0 ≤ b)
    (high : b < 2147483648)
    (isNear : near = (a + 8192) / 16384 + 262143) :
    (near < (b + 8192) / 16384 ∨
        near = (b + 8192) / 16384 ∧ a % 16384 < b % 16384) ↔
      Extremes a b := by
  rw [Extremes]
  omega

/-- Extremes have different signs. -/
theorem order_of_oneSign
    {a b : Int}
    (sign : 0 ≤ a ↔ 0 ≤ b) :
    SameSide a b ∨ Extremes a b ∨ Extremes b a ↔
      (a / 16384 = b / 16384 ∨ (a + 8192) / 16384 ≠ (b + 8192) / 16384) := by
  have notExtremes : ¬ (Extremes a b ∨ Extremes b a) := by
    rw [Extremes, Extremes]
    omega
  rw [or_iff_left notExtremes, SameSide, and_iff_right sign]

/-- Numbers of different signs are not on one side, and only one is the lower. -/
theorem order_of_twoSigns
    {a b : Int}
    (negative : a < 0)
    (positive : 0 ≤ b) :
    (SameSide a b ∨ Extremes a b ∨ Extremes b a ↔ Extremes a b) ∧
      (SameSide b a ∨ Extremes b a ∨ Extremes a b ↔ Extremes a b) := by
  have notUpper : ¬ Extremes b a := by
    rw [Extremes]
    omega
  have notSame : ¬ SameSide a b :=
    fun same => absurd (same.1.mpr positive) (Int.not_le.mpr negative)
  have notSameBack : ¬ SameSide b a :=
    fun same => absurd (same.1.mp positive) (Int.not_le.mpr negative)
  simp only [notUpper, notSame, notSameBack, false_or, or_false, and_self]

/-- The comparison is right on one side of an integer, and of some extremes. -/
theorem fixedPointCmpNear_sign :
    (fixedPointCmpNear x y).sign = (x.toInt - y.toInt).sign ↔
      SameSide x.toInt y.toInt ∨ Extremes x.toInt y.toInt ∨
        Extremes y.toInt x.toInt := by
  rw [sign_eq_sign_iff, fixedPointCmpNear_pos, fixedPointCmpNear_neg]
  have nearX := toNat_fixedPointToIntNear x
  have nearY := toNat_fixedPointToIntNear y
  have fracX := toNat_fixedPointToFrac x
  have fracY := toNat_fixedPointToFrac y
  have lowX := BitVec.le_toInt x
  have lowY := BitVec.le_toInt y
  have highX := @BitVec.toInt_lt 32 x
  have highY := @BitVec.toInt_lt 32 y
  simp only [← Int.ofNat_lt, ← Int.ofNat_inj, fracX, fracY]
  generalize ((fixedPointToIntNear x).toNat : Int) = nx at *
  generalize ((fixedPointToIntNear y).toNat : Int) = ny at *
  generalize x.toInt = a at *
  generalize y.toInt = b at *
  by_cases signX : 0 ≤ a
  · rw [if_pos signX] at nearX
    by_cases signY : 0 ≤ b
    · rw [if_pos signY] at nearY
      rw [nearX, nearY, nearest_order, order_of_oneSign (iff_of_true signX signY)]
    · rw [if_neg signY] at nearY
      have extremes :=
        negative_order (Int.not_le.mp signY) lowY signX highX nearY
      rw [← nearX] at extremes
      rw [(order_of_twoSigns (Int.not_le.mp signY) signX).2, ← extremes]
      refine ⟨fun both => both.1.mpr (by omega), fun more => ?_⟩
      exact ⟨iff_of_true more (by omega), iff_of_false (by omega) (by omega)⟩
  · rw [if_neg signX] at nearX
    by_cases signY : 0 ≤ b
    · rw [if_pos signY] at nearY
      have extremes :=
        negative_order (Int.not_le.mp signX) lowX signY highY nearX
      rw [← nearY] at extremes
      rw [(order_of_twoSigns (Int.not_le.mp signX) signY).1, ← extremes]
      refine ⟨fun both => both.2.mpr (by omega), fun less => ?_⟩
      exact ⟨iff_of_false (by omega) (by omega), iff_of_true less (by omega)⟩
    · rw [if_neg signY] at nearY
      rw [nearX, nearY, add_lt_add_iff_right, add_lt_add_iff_right,
        add_left_inj, add_left_inj, nearest_order,
        order_of_oneSign (iff_of_false signX signY)]

/-- No integer is nearer when the number is at most a half away. -/
theorem nearestInt_iff
    (a rounded : Int) :
    NearestInt a rounded ↔
      -8192 ≤ a - 16384 * rounded ∧ a - 16384 * rounded ≤ 8192 := by
  constructor
  · intro nearest
    have above := nearest (rounded + 1)
    have below := nearest (rounded - 1)
    omega
  · rintro ⟨low, high⟩ other
    omega

/--
The comparison has the sign of the difference on one side of an integer, and of
some extremes; the conversions are right for the numbers that are not negative.
-/
theorem fixedPoint_right_iff :
    ((fixedPointCmpNear x y).sign = (x.toInt - y.toInt).sign ↔
        SameSide x.toInt y.toInt ∨ Extremes x.toInt y.toInt ∨
          Extremes y.toInt x.toInt) ∧
      (((fixedPointToIntZero x).toNat : Int) = x.toInt.tdiv 16384 ↔
        0 ≤ x.toInt) ∧
      (NearestInt x.toInt (fixedPointToIntNear x).toNat ↔ 0 ≤ x.toInt) := by
  have low := BitVec.le_toInt x
  refine ⟨fixedPointCmpNear_sign x y, ?_, ?_⟩
  · rw [toNat_fixedPointToIntZero]
    split
    case isTrue positive =>
      exact iff_of_true (Int.tdiv_eq_ediv_of_nonneg positive).symm positive
    case isFalse negative =>
      refine iff_of_false (fun same => ?_) negative
      have bound : x.toInt.tdiv 16384 ≤ 0 :=
        Int.tdiv_le_tdiv (by decide) (Int.not_le.mp negative).le
      omega
  · rw [nearestInt_iff, toNat_fixedPointToIntNear]
    split
    case isTrue positive =>
      exact iff_of_true (by omega) positive
    case isFalse negative =>
      exact iff_of_false (by omega) negative

end Values

/-- One half is not greater than one, and -1 is not near to 262143. -/
theorem fixedPoint_not_right :
    fixedPointCmpNear 8192 16384 = 1 ∧
      ¬ (fixedPointCmpNear 8192 16384).sign =
        ((8192 : Fpa32).toInt - (16384 : Fpa32).toInt).sign ∧
      (fixedPointToIntZero (-1)).toNat = 262143 ∧
      ¬ ((fixedPointToIntZero (-1)).toNat : Int) =
        (-1 : Fpa32).toInt.tdiv 16384 ∧
      ¬ NearestInt (-1 : Fpa32).toInt (fixedPointToIntNear (-1)).toNat := by
  refine ⟨by decide, by decide, by decide, by decide, fun nearest => ?_⟩
  have zero := nearest 0
  revert zero
  decide

end RiscvWorkshop.Klib
