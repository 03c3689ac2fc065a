import Mathlib
import RiscvWorkshop.VmMap

namespace RiscvWorkshop.Vm

open Pgtbl

/-!
# The order of the block that a size needs

The page allocator looks for the top bit of the number of pages.  The number
comes from a size that is rounded up to whole pages on 64-bit words.
-/

/-- The least order of a block that holds a size. -/
structure LeastOrder
    (size order : Nat) : Prop where
  bound : order < Pfdb.pagePoolMaxOrder
  holds : size ≤ pageSize * 2 ^ order
  least : ∀ smaller < order, pageSize * 2 ^ smaller < size

/-- The order returned is the least one, and there is none for `-ESRCH`. -/
def OrderRight (size : Nat) : Prop :=
  ∀ order, pgifCalcPageOrder size = some order ↔ LeastOrder size order

/-- The order above the top bit, unless the number is a power of two. -/
theorem roundedOrder_eq
    {nrPages order : Nat}
    (reached : order ≠ 0 → 2 ^ order ≤ nrPages)
    (below : nrPages < 2 ^ (order + 1)) :
    (if nrPages &&& (1 <<< order - 1) ≠ 0 then order + 1 else order) =
      Nat.clog 2 nrPages := by
  rw [Nat.one_shiftLeft, Nat.and_two_pow_sub_one_eq_mod]
  by_cases first : order = 0
  · subst first
    have one : nrPages ≤ 1 := Nat.le_of_lt_succ below
    rw [pow_zero, Nat.mod_one, if_neg (not_not.mpr rfl),
      Nat.clog_of_right_le_one one]
  · have top := reached first
    have low : nrPages % 2 ^ order = nrPages - 2 ^ order := by
      rw [Nat.mod_eq_sub_mod top, Nat.mod_eq_of_lt]
      rw [pow_succ] at below
      omega
    rw [low]
    by_cases power : nrPages = 2 ^ order
    · rw [power, Nat.sub_self, if_neg (not_not.mpr rfl),
        Nat.clog_pow 2 order Nat.one_lt_two]
    · have above : 2 ^ order < nrPages := lt_of_le_of_ne top (Ne.symm power)
      rw [if_pos (Nat.sub_ne_zero_of_lt above)]
      refine le_antisymm ?_ (Nat.clog_le_of_le_pow below.le)
      exact (Nat.lt_clog_iff_pow_lt Nat.one_lt_two).mpr above

/-- The loop returns the ceiling of the logarithm, when the pool has this order. -/
theorem calcOrderLoop_eq
    {nrPages rounds order : Nat}
    (left : order + rounds = Pfdb.pagePoolMaxOrder)
    (reached : order ≠ 0 → 2 ^ order ≤ nrPages) :
    calcOrderLoop nrPages rounds order =
      if Nat.clog 2 nrPages < Pfdb.pagePoolMaxOrder then
        some (Nat.clog 2 nrPages)
      else
        none := by
  induction rounds generalizing order with
  | zero =>
      have top : 2 ^ order ≤ nrPages := by
        refine reached fun none => ?_
        rw [none] at left
        exact absurd left (by decide)
      have tooLarge : Pfdb.pagePoolMaxOrder ≤ Nat.clog 2 nrPages := by
        rw [← left, Nat.add_zero, ← Nat.clog_pow 2 order Nat.one_lt_two]
        exact Nat.clog_mono_right 2 top
      rw [calcOrderLoop, if_neg (Nat.not_lt.mpr tooLarge)]
  | succ rounds inductionHypothesis =>
      rw [calcOrderLoop]
      by_cases isTop : nrPages >>> (order + 1) = 0
      · have below : nrPages < 2 ^ (order + 1) := by
          rw [Nat.shiftRight_eq_div_pow] at isTop
          exact (Nat.div_eq_zero_iff_lt (Nat.two_pow_pos _)).mp isTop
        have atMost : Nat.clog 2 nrPages ≤ Pfdb.pagePoolMaxOrder :=
          (Nat.clog_le_of_le_pow below.le).trans (by omega)
        rw [if_pos isTop, roundedOrder_eq reached below]
        by_cases largest : Nat.clog 2 nrPages = Pfdb.pagePoolMaxOrder
        · rw [if_pos largest, if_neg (Nat.not_lt.mpr largest.ge)]
        · rw [if_neg largest, if_pos (lt_of_le_of_ne atMost largest)]
      · rw [if_neg isTop]
        refine inductionHypothesis (by omega) fun _ => ?_
        rw [Nat.shiftRight_eq_div_pow] at isTop
        by_contra small
        exact isTop (Nat.div_eq_of_lt (Nat.not_le.mp small))

/-- The pages that a size is rounded up to hold it, and no fewer do. -/
theorem pageRoundup_le_iff
    {size : Nat}
    (noWrap : size + (pageSize - 1) < addressSpace)
    (pages : Nat) :
    pageRoundup size >>> pageShift ≤ pages ↔ size ≤ pageSize * pages := by
  have words : pageSize = 4096 := rfl
  rw [pageRoundup, truncateAlign, Nat.mod_eq_of_lt noWrap,
    Nat.shiftRight_eq_div_pow]
  have shift : 2 ^ pageShift = pageSize := rfl
  rw [shift, Nat.mul_div_cancel _ (by decide), words]
  omega

/-- A size less than a page short of the end of the words is rounded to none. -/
theorem pageRoundup_of_wrap
    {size : Nat}
    (small : size < addressSpace)
    (wrap : ¬ size + (pageSize - 1) < addressSpace) :
    pageRoundup size = 0 := by
  have words : pageSize = 4096 := rfl
  have space : addressSpace = 2 ^ 64 := rfl
  rw [pageRoundup, truncateAlign]
  have rest : (size + (pageSize - 1)) % addressSpace < pageSize := by
    rw [Nat.mod_eq_sub_mod (Nat.not_lt.mp wrap)]
    exact (Nat.mod_le _ _).trans_lt (by omega)
  rw [Nat.div_eq_of_lt rest, Nat.zero_mul]

/-- The least order is the ceiling of the logarithm of the number of pages. -/
theorem leastOrder_iff
    {size : Nat}
    (noWrap : size + (pageSize - 1) < addressSpace)
    (order : Nat) :
    LeastOrder size order ↔
      order < Pfdb.pagePoolMaxOrder ∧
        Nat.clog 2 (pageRoundup size >>> pageShift) = order := by
  have holds : ∀ other,
      Nat.clog 2 (pageRoundup size >>> pageShift) ≤ other ↔
        size ≤ pageSize * 2 ^ other := by
    intro other
    rw [Nat.clog_le_iff_le_pow Nat.one_lt_two, pageRoundup_le_iff noWrap]
  constructor
  · rintro ⟨bound, fits, least⟩
    refine ⟨bound, le_antisymm ((holds order).mpr fits) ?_⟩
    by_contra smaller
    have tooSmall := least _ (Nat.not_le.mp smaller)
    exact absurd ((holds _).mp le_rfl) (Nat.not_le.mpr tooSmall)
  · rintro ⟨bound, rfl⟩
    refine ⟨bound, (holds _).mp le_rfl, fun smaller less => ?_⟩
    by_contra fits
    exact absurd ((holds smaller).mpr (Nat.not_lt.mp fits))
      (Nat.not_le.mpr less)

/-- The order is right exactly when rounding the size up stays within a word. -/
theorem orderRight_iff
    {size : Nat}
    (small : size < addressSpace) :
    OrderRight size ↔ size + (pageSize - 1) < addressSpace := by
  have start :
      pgifCalcPageOrder size =
        if Nat.clog 2 (pageRoundup size >>> pageShift) <
            Pfdb.pagePoolMaxOrder then
          some (Nat.clog 2 (pageRoundup size >>> pageShift))
        else
          none :=
    calcOrderLoop_eq (Nat.zero_add _) fun first => absurd rfl first
  constructor
  · intro right
    by_contra wrap
    -- a size above all orders is taken for an empty one
    rw [pageRoundup_of_wrap small wrap] at start
    have least := (right 0).mp (start.trans (by decide))
    have holds := least.holds
    have space : addressSpace = 2 ^ 64 := rfl
    have words : pageSize = 4096 := rfl
    omega
  · intro noWrap order
    rw [leastOrder_iff noWrap, start]
    by_cases fits :
        Nat.clog 2 (pageRoundup size >>> pageShift) < Pfdb.pagePoolMaxOrder
    · rw [if_pos fits, Option.some.injEq]
      exact ⟨fun same => ⟨same ▸ fits, same⟩, fun found => found.2⟩
    · rw [if_neg fits]
      exact ⟨nofun, fun found => absurd (found.2 ▸ found.1) fits⟩

/-- Three pages and a byte need a block of order two. -/
theorem orderRight_iff_three_pages :
    OrderRight (3 * pageSize + 1) ∧
      pgifCalcPageOrder (3 * pageSize + 1) = some 2 :=
  ⟨(orderRight_iff (by decide)).mpr (by decide), by decide⟩

/-- The largest size is taken for one that a single page holds. -/
theorem largest_size_order :
    pgifCalcPageOrder (addressSpace - 1) = some 0 ∧
      ¬ OrderRight (addressSpace - 1) := by
  have order : pgifCalcPageOrder (addressSpace - 1) = some 0 := by decide
  refine ⟨order, fun right => ?_⟩
  have holds := ((right 0).mp order).holds
  exact absurd holds (by decide)

end RiscvWorkshop.Vm
