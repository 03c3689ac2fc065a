import Mathlib
import RiscvWorkshop.PageFrameBuddy

namespace RiscvWorkshop.Kmem

open Pfdb

/-!
# The order of the pages of a slab

A cache that keeps its records outside the pages chooses the order that leaves
little of the pages unused.  Sizes are 64-bit words.
-/

/-- The number of values of a `size_t`. -/
def sizeLimit : Nat := 2 ^ 64

/-- `KM_SLAB_TYPE_DIVISOR`. -/
def kmSlabTypeDivisor : Nat := 8

/-- The bytes of a slab of an order that no object takes. -/
def remainSize
    (objSize coloringArea order : Nat) : Nat :=
  let dataAreaSize :=
    (pageSize <<< order + (sizeLimit - coloringArea)) % sizeLimit
  dataAreaSize - dataAreaSize / objSize * objSize

/-- The loop of `cacl_off_slab_size`, by the rounds left. -/
def offSlabLoop
    (objSize coloringArea : Nat) :
    Nat → Nat → Nat → Nat → Option Nat
  | 0, _, candidate, candidateRemains =>
      if candidateRemains = pageSize <<< pagePoolMaxOrder then none
      else some candidate
  | rounds + 1, order, candidate, candidateRemains =>
      let slabSize := pageSize <<< order
      if slabSize < (objSize + coloringArea) % sizeLimit then
        offSlabLoop objSize coloringArea rounds (order + 1) candidate
          candidateRemains
      else
        let remain := remainSize objSize coloringArea order
        if slabSize / kmSlabTypeDivisor ≥ remain then
          some order
        else if candidateRemains > remain then
          offSlabLoop objSize coloringArea rounds (order + 1) order remain
        else
          offSlabLoop objSize coloringArea rounds (order + 1) candidate
            candidateRemains

/-- `cacl_off_slab_size`, without a result for `-ESRCH`. -/
def caclOffSlabSize
    (objSize coloringArea : Nat) : Option Nat :=
  offSlabLoop objSize coloringArea pagePoolMaxOrder 0 0
    (pageSize <<< pagePoolMaxOrder)

/-! ## The search for the best order -/

section Search

variable (fits : Nat → Prop)
variable (remain : Nat → Nat)

/-- A remainder of at most one eighth of the slab. -/
def Tight (order : Nat) : Prop :=
  remain order ≤ pageSize <<< order / kmSlabTypeDivisor

/-- The least order with the smallest remainder among those below a bound. -/
structure BestBelow
    (bound order : Nat) : Prop where
  below : order < bound
  holds : fits order
  smallest : ∀ other < bound, fits other → remain order ≤ remain other
  least : ∀ smaller < order, fits smaller → remain order < remain smaller

/-- The least tight order, or the best order when none is tight. -/
inductive Chosen (order : Nat) : Prop where
  | tight
      (bound : order < pagePoolMaxOrder)
      (holds : fits order)
      (isTight : Tight remain order)
      (least : ∀ smaller < order, fits smaller → ¬ Tight remain smaller)
  | best
      (noneTight :
        ∀ other < pagePoolMaxOrder, fits other → ¬ Tight remain other)
      (isBest : BestBelow fits remain pagePoolMaxOrder order)

/-- What the loop knows of the orders that it has tried. -/
inductive Searched
    (tried candidate candidateRemains : Nat) : Prop where
  | noneFits
      (sentinel : candidateRemains = pageSize <<< pagePoolMaxOrder)
      (tooSmall : ∀ other < tried, ¬ fits other)
  | best
      (isBest : BestBelow fits remain tried candidate)
      (remains : candidateRemains = remain candidate)

end Search

section Loop

variable {fits : Nat → Prop}
variable {remain : Nat → Nat}
variable {objSize coloringArea : Nat}

/-- A chosen order holds an object. -/
theorem Chosen.holds
    {order : Nat}
    (chosen : Chosen fits remain order) :
    order < pagePoolMaxOrder ∧ fits order := by
  cases chosen with
  | tight bound holds => exact ⟨bound, holds⟩
  | best _ isBest => exact ⟨isBest.below, isBest.holds⟩

/-- An order that is too small changes nothing. -/
theorem Searched.skip
    {tried candidate candidateRemains : Nat}
    (searched : Searched fits remain tried candidate candidateRemains)
    (tooSmall : ¬ fits tried) :
    Searched fits remain (tried + 1) candidate candidateRemains := by
  cases searched with
  | noneFits sentinel none =>
      refine .noneFits sentinel fun other less => ?_
      rcases Nat.lt_succ_iff_lt_or_eq.mp less with earlier | rfl
      · exact none other earlier
      · exact tooSmall
  | best isBest remains =>
      refine .best ⟨Nat.lt_succ_of_lt isBest.below, isBest.holds,
        fun other less holds => ?_, isBest.least⟩ remains
      rcases Nat.lt_succ_iff_lt_or_eq.mp less with earlier | rfl
      · exact isBest.smallest other earlier holds
      · exact absurd holds tooSmall

/-- A smaller remainder becomes the candidate. -/
theorem Searched.improve
    {tried candidate candidateRemains : Nat}
    (searched : Searched fits remain tried candidate candidateRemains)
    (holds : fits tried)
    (smaller : remain tried < candidateRemains) :
    Searched fits remain (tried + 1) tried (remain tried) := by
  have larger : ∀ other < tried, fits other → remain tried < remain other := by
    intro other less otherHolds
    cases searched with
    | noneFits _ none => exact absurd otherHolds (none other less)
    | best isBest remains =>
        exact smaller.trans_le
          (remains ▸ isBest.smallest other less otherHolds)
  refine .best ⟨Nat.lt_succ_self tried, holds, fun other less otherHolds => ?_,
    larger⟩ rfl
  rcases Nat.lt_succ_iff_lt_or_eq.mp less with earlier | rfl
  · exact (larger other earlier otherHolds).le
  · exact le_rfl

/-- A remainder that is no smaller leaves the candidate. -/
theorem Searched.keep
    {tried candidate candidateRemains : Nat}
    (searched : Searched fits remain tried candidate candidateRemains)
    (belowSentinel : remain tried < pageSize <<< pagePoolMaxOrder)
    (notSmaller : ¬ remain tried < candidateRemains) :
    Searched fits remain (tried + 1) candidate candidateRemains := by
  cases searched with
  | noneFits sentinel _ =>
      rw [sentinel] at notSmaller
      exact absurd belowSentinel notSmaller
  | best isBest remains =>
      refine .best ⟨Nat.lt_succ_of_lt isBest.below, isBest.holds,
        fun other less holds => ?_, isBest.least⟩ remains
      rcases Nat.lt_succ_iff_lt_or_eq.mp less with earlier | rfl
      · exact isBest.smallest other earlier holds
      · exact remains ▸ Nat.not_lt.mp notSmaller

/-- The loop chooses an order, or there is none. -/
theorem offSlabLoop_chosen
    (need : ∀ order,
      fits order ↔
        (objSize + coloringArea) % sizeLimit ≤ pageSize <<< order)
    (belowSentinel : ∀ order < pagePoolMaxOrder, fits order →
      remainSize objSize coloringArea order < pageSize <<< pagePoolMaxOrder)
    {rounds tried candidate candidateRemains : Nat}
    (left : tried + rounds = pagePoolMaxOrder)
    (searched :
      Searched fits (remainSize objSize coloringArea) tried candidate
        candidateRemains)
    (noneTight : ∀ other < tried, fits other →
      ¬ Tight (remainSize objSize coloringArea) other) :
    match offSlabLoop objSize coloringArea rounds tried candidate
        candidateRemains with
    | some order => Chosen fits (remainSize objSize coloringArea) order
    | none => ∀ other < pagePoolMaxOrder, ¬ fits other := by
  induction rounds generalizing tried candidate candidateRemains with
  | zero =>
      have all : tried = pagePoolMaxOrder := left
      subst all
      rw [offSlabLoop]
      cases searched with
      | noneFits sentinel none =>
          rw [if_pos sentinel]
          exact none
      | best isBest remains =>
          have different :
              candidateRemains ≠ pageSize <<< pagePoolMaxOrder :=
            (remains ▸
              belowSentinel candidate isBest.below isBest.holds).ne
          rw [if_neg different]
          exact .best noneTight isBest
  | succ rounds inductionHypothesis =>
      have bound : tried < pagePoolMaxOrder := by omega
      rw [offSlabLoop]
      by_cases tooSmall :
          pageSize <<< tried < (objSize + coloringArea) % sizeLimit
      · have notFits : ¬ fits tried := fun holds =>
          absurd ((need tried).mp holds) (Nat.not_le.mpr tooSmall)
        simp only [if_pos tooSmall]
        refine inductionHypothesis (by omega) (searched.skip notFits) ?_
        intro other less holds
        rcases Nat.lt_succ_iff_lt_or_eq.mp less with earlier | rfl
        · exact noneTight other earlier holds
        · exact absurd holds notFits
      · have holds : fits tried := (need tried).mpr (Nat.not_lt.mp tooSmall)
        simp only [if_neg tooSmall]
        by_cases isTight : Tight (remainSize objSize coloringArea) tried
        · have early :
              pageSize <<< tried / kmSlabTypeDivisor ≥
                remainSize objSize coloringArea tried :=
            isTight
          rw [if_pos early]
          exact .tight bound holds isTight noneTight
        · have stillNone : ∀ other < tried + 1, fits other →
              ¬ Tight (remainSize objSize coloringArea) other := by
            intro other less otherHolds
            rcases Nat.lt_succ_iff_lt_or_eq.mp less with earlier | rfl
            · exact noneTight other earlier otherHolds
            · exact isTight
          have late :
              ¬ pageSize <<< tried / kmSlabTypeDivisor ≥
                remainSize objSize coloringArea tried :=
            isTight
          rw [if_neg late]
          by_cases smaller :
              remainSize objSize coloringArea tried < candidateRemains
          · rw [if_pos smaller]
            exact inductionHypothesis (by omega)
              (searched.improve holds smaller) stillNone
          · rw [if_neg smaller]
            exact inductionHypothesis (by omega)
              (searched.keep (belowSentinel tried bound holds) smaller)
              stillNone

/-- Only the remainders of the orders that hold an object matter. -/
theorem Chosen.congr
    {other : Nat → Nat}
    {order : Nat}
    (chosen : Chosen fits remain order)
    (same : ∀ tried < pagePoolMaxOrder, fits tried →
      remain tried = other tried) :
    Chosen fits other order := by
  have tight : ∀ tried < pagePoolMaxOrder, fits tried →
      (Tight remain tried ↔ Tight other tried) := by
    intro tried less holds
    rw [Tight, Tight, same tried less holds]
  cases chosen with
  | tight bound holds isTight least =>
      refine .tight bound holds ((tight order bound holds).mp isTight)
        fun smaller less smallerHolds isSmaller => ?_
      have less' := less.trans bound
      exact least smaller less smallerHolds
        ((tight smaller less' smallerHolds).mpr isSmaller)
  | best noneTight isBest =>
      have here := same order isBest.below isBest.holds
      refine .best (fun tried less holds isTight => ?_)
        ⟨isBest.below, isBest.holds, fun tried less holds => ?_,
          fun smaller less holds => ?_⟩
      · exact noneTight tried less holds ((tight tried less holds).mpr isTight)
      · rw [← here, ← same tried less holds]
        exact isBest.smallest tried less holds
      · rw [← here, ← same smaller (less.trans isBest.below) holds]
        exact isBest.least smaller less holds

/-- An order that the loop returns is one that it tried. -/
theorem offSlabLoop_lt
    {rounds tried candidate candidateRemains order : Nat}
    (left : tried + rounds ≤ pagePoolMaxOrder)
    (below : candidate < pagePoolMaxOrder)
    (result :
      offSlabLoop objSize coloringArea rounds tried candidate
        candidateRemains = some order) :
    order < pagePoolMaxOrder := by
  induction rounds generalizing tried candidate candidateRemains with
  | zero =>
      rw [offSlabLoop] at result
      split_ifs at result
      cases result
      exact below
  | succ rounds inductionHypothesis =>
      have bound : tried < pagePoolMaxOrder := by omega
      rw [offSlabLoop] at result
      simp only at result
      split_ifs at result
      · exact inductionHypothesis (by omega) below result
      · cases result
        exact bound
      · exact inductionHypothesis (by omega) bound result
      · exact inductionHypothesis (by omega) below result

end Loop

/-! ## The order of the pages -/

/-- A slab of an order holds an object besides the coloring area. -/
def HoldsObject
    (objSize coloringArea order : Nat) : Prop :=
  objSize + coloringArea ≤ pageSize <<< order

/-- The unused remainder of a slab that holds as many objects as fit. -/
def unusedRemainder
    (objSize coloringArea order : Nat) : Nat :=
  (pageSize <<< order - coloringArea) % objSize

/--
An order is returned exactly when one holds an object; it is the least one with
a remainder of at most one eighth, or the least with the smallest remainder.
-/
def OffSlabSizeRight
    (objSize coloringArea : Nat) : Prop :=
  match caclOffSlabSize objSize coloringArea with
  | some order =>
      Chosen (HoldsObject objSize coloringArea)
        (unusedRemainder objSize coloringArea) order
  | none =>
      ∀ order < pagePoolMaxOrder, ¬ HoldsObject objSize coloringArea order

/-- The sum of the two sizes reaches the end of the words by a slab at most. -/
def SumWraps
    (objSize coloringArea : Nat) : Prop :=
  sizeLimit ≤ objSize + coloringArea ∧
    objSize + coloringArea ≤
      sizeLimit + pageSize <<< (pagePoolMaxOrder - 1)

section Sizes

variable {objSize coloringArea : Nat}

theorem sizeLimit_eq : sizeLimit = 18446744073709551616 := rfl

theorem topSlab_eq : pageSize <<< (pagePoolMaxOrder - 1) = 4194304 := rfl

theorem sentinel_eq : pageSize <<< pagePoolMaxOrder = 8388608 := rfl

/-- The slabs of the pool are far below the sentinel. -/
theorem slabSize_le
    {order : Nat}
    (bound : order < pagePoolMaxOrder) :
    pageSize <<< order ≤ pageSize <<< (pagePoolMaxOrder - 1) := by
  rw [Nat.shiftLeft_eq, Nat.shiftLeft_eq]
  refine Nat.mul_le_mul_left _ (Nat.pow_le_pow_right Nat.two_pos ?_)
  exact Nat.le_sub_one_of_lt bound

/-- What is left of the data area is its remainder by the size of an object. -/
theorem remainSize_eq
    (order : Nat) :
    remainSize objSize coloringArea order =
      (pageSize <<< order + (sizeLimit - coloringArea)) % sizeLimit %
        objSize := by
  rw [remainSize, ← Nat.mod_eq_sub_div_mul]

/-- The remainder when the coloring area lies within the slab. -/
theorem remainSize_within
    {order : Nat}
    (bound : order < pagePoolMaxOrder)
    (small : coloringArea < sizeLimit)
    (within : coloringArea ≤ pageSize <<< order) :
    remainSize objSize coloringArea order =
      unusedRemainder objSize coloringArea order := by
  have largest := slabSize_le bound
  rw [topSlab_eq] at largest
  rw [sizeLimit_eq] at small
  rw [remainSize_eq, unusedRemainder, sizeLimit_eq]
  congr 1
  omega

/-- The remainder stays below the sentinel, also when the sum wraps. -/
theorem remainSize_lt_sentinel
    {order : Nat}
    (positive : 0 < objSize)
    (bound : order < pagePoolMaxOrder)
    (objSmall : objSize < sizeLimit)
    (coloringSmall : coloringArea < sizeLimit)
    (holds : (objSize + coloringArea) % sizeLimit ≤ pageSize <<< order) :
    remainSize objSize coloringArea order < pageSize <<< pagePoolMaxOrder := by
  have largest := slabSize_le bound
  rw [topSlab_eq] at largest
  rw [sizeLimit_eq] at objSmall coloringSmall holds
  rw [remainSize_eq, sentinel_eq, sizeLimit_eq]
  by_cases within : coloringArea ≤ pageSize <<< order
  · refine (Nat.mod_le _ _).trans_lt ?_
    omega
  · have area :
        (pageSize <<< order + (18446744073709551616 - coloringArea)) %
            18446744073709551616 =
          pageSize <<< order -
            (objSize + coloringArea) % 18446744073709551616 + objSize := by
      omega
    rw [area, Nat.add_mod_right]
    refine (Nat.mod_le _ _).trans_lt ?_
    omega

/-- The search chooses among the orders that look large enough. -/
theorem caclOffSlabSize_chosen
    (positive : 0 < objSize)
    (objSmall : objSize < sizeLimit)
    (coloringSmall : coloringArea < sizeLimit) :
    match caclOffSlabSize objSize coloringArea with
    | some order =>
        Chosen
          (fun order =>
            (objSize + coloringArea) % sizeLimit ≤ pageSize <<< order)
          (remainSize objSize coloringArea) order
    | none =>
        ∀ order < pagePoolMaxOrder,
          ¬ (objSize + coloringArea) % sizeLimit ≤ pageSize <<< order :=
  offSlabLoop_chosen (fun _ => .rfl)
    (fun _ bound holds =>
      remainSize_lt_sentinel positive bound objSmall coloringSmall holds)
    (Nat.zero_add pagePoolMaxOrder) (.noneFits rfl nofun) nofun

/-- The order is right exactly when the sum of the sizes does not wrap to a small one. -/
theorem offSlabSizeRight_iff
    (positive : 0 < objSize)
    (objSmall : objSize < sizeLimit)
    (coloringSmall : coloringArea < sizeLimit) :
    OffSlabSizeRight objSize coloringArea ↔
      ¬ SumWraps objSize coloringArea := by
  have searched :=
    caclOffSlabSize_chosen positive objSmall coloringSmall
  have words := sizeLimit_eq
  rw [OffSlabSizeRight]
  by_cases noWrap : objSize + coloringArea < sizeLimit
  · -- the sum is what it should be
    have notWraps : ¬ SumWraps objSize coloringArea :=
      fun wraps => absurd noWrap (Nat.not_lt.mpr wraps.1)
    rw [Nat.mod_eq_of_lt noWrap] at searched
    refine iff_of_true ?_ notWraps
    cases result : caclOffSlabSize objSize coloringArea with
    | none =>
        rw [result] at searched
        exact searched
    | some order =>
        rw [result] at searched
        refine searched.congr fun tried bound holds => ?_
        exact remainSize_within bound coloringSmall (by omega)
  · have noneHolds : ∀ order < pagePoolMaxOrder,
        ¬ HoldsObject objSize coloringArea order := by
      intro order bound holds
      have largest := slabSize_le bound
      rw [HoldsObject] at holds
      rw [topSlab_eq] at largest
      omega
    have rest :
        (objSize + coloringArea) % sizeLimit =
          objSize + coloringArea - sizeLimit := by
      rw [sizeLimit_eq] at *
      omega
    cases result : caclOffSlabSize objSize coloringArea with
    | none =>
        rw [result] at searched
        refine iff_of_true noneHolds fun wraps => ?_
        refine searched (pagePoolMaxOrder - 1) (by decide) ?_
        rw [rest]
        exact Nat.sub_le_iff_le_add'.mpr wraps.2
    | some order =>
        rw [result] at searched
        obtain ⟨bound, fits⟩ := searched.holds
        refine iff_of_false (fun chosen => ?_) (not_not.mpr ⟨?_, ?_⟩)
        · exact noneHolds order bound chosen.holds.2
        · exact Nat.not_lt.mp noWrap
        · rw [rest] at fits
          exact Nat.sub_le_iff_le_add'.mp (fits.trans (slabSize_le bound))

end Sizes

/-- Objects of three thousand bytes are put on slabs of four pages. -/
theorem offSlabSizeRight_three_thousand :
    OffSlabSizeRight 3000 0 ∧ caclOffSlabSize 3000 0 = some 2 := by
  refine ⟨(offSlabSizeRight_iff (by decide) (by decide) (by decide)).mpr ?_,
    by decide⟩
  exact fun wraps => absurd wraps.1 (by decide)

/-- An object at the end of the words is said to fit on one page. -/
theorem offSlabSize_wraps :
    caclOffSlabSize (sizeLimit - 24) 4096 = some 0 ∧
      ¬ OffSlabSizeRight (sizeLimit - 24) 4096 := by
  have order : caclOffSlabSize (sizeLimit - 24) 4096 = some 0 := by decide
  refine ⟨order, fun right => ?_⟩
  rw [OffSlabSizeRight, order] at right
  exact absurd right.holds.2 (by rw [HoldsObject]; decide)

end RiscvWorkshop.Kmem
