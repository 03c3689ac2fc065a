import Mathlib
import RiscvWorkshop.Bitmaps

namespace RiscvWorkshop.Bitops

open Set

/-!
# Bitmaps as sets

The operations on bitmaps are those on their sets.  The searches find the first
and the last bit where their counters do not run over.
-/

section Places

variable {type : WordType}
variable {n other : Nat}

theorem bitmapIndexShift_eq : type.bits = 2 ^ bitmapIndexShift type := by
  cases type with
  | uint16 => decide
  | uint32 => decide
  | uint64 => decide

theorem wordIndex_eq : wordIndex type n = n / type.bits := by
  rw [wordIndex, Nat.shiftRight_eq_div_pow, ← bitmapIndexShift_eq]

theorem bits_pos : 0 < type.bits := by
  rw [bitmapIndexShift_eq]
  exact Nat.two_pow_pos _

/-- The offset is the one bit of its word. -/
theorem wordOffset_getLsbD
    (i : Nat) :
    (wordOffset type n).getLsbD i = decide (i = n % type.bits) := by
  have place : n &&& (type.bits - 1) = n % type.bits := by
    rw [bitmapIndexShift_eq]
    exact Nat.and_two_pow_sub_one_eq_mod n _
  rw [wordOffset, place, ← BitVec.twoPow_eq, BitVec.getLsbD_twoPow]
  simp [Nat.mod_lt n bits_pos, eq_comm]

/-- Two numbers of one word and one place in it are the same. -/
theorem eq_of_wordPlace
    (word : other / type.bits = n / type.bits)
    (place : other % type.bits = n % type.bits) :
    other = n := by
  rw [← Nat.div_add_mod other type.bits, ← Nat.div_add_mod n type.bits, word,
    place]

end Places

/-! ## The operations on bits -/

section Bits

variable {type : WordType}
variable {map v out v1 v2 : BitmapOf type}
variable {n other : Nat}

namespace BitmapOf

/-- A word is in the bitmap when its bits are. -/
theorem word_lt_iff :
    n / type.bits < map.length ↔ n < map.size := by
  rw [size, Nat.div_lt_iff_lt_mul bits_pos, Nat.mul_comm]

/-- Bits beyond the bitmap are clear. -/
theorem lt_size_of_bit
    (set : map.bit n = true) :
    n < map.size := by
  by_contra outside
  have beyond := Nat.not_lt.mp (word_lt_iff.not.mpr outside)
  rw [bit, List.getD_eq_default _ _ beyond, BitVec.ofNat_eq_ofNat,
    BitVec.getLsbD_zero] at set
  cases set

/-- Bitmaps with the same words have the same bits. -/
theorem bit_of_getD
    {word : BitVec type.bits}
    (same : map.getD (n / type.bits) 0 = word) :
    map.bit n = word.getLsbD (n % type.bits) := by
  rw [bit, same]

/-- `bitops_isset` tells whether the bit is set. -/
theorem isset_eq :
    map.isset n = map.bit n := by
  rw [isset, wordIndex_eq, bit, Bool.eq_iff_iff, bne_iff_ne]
  constructor
  · intro some_bit
    by_contra clear
    refine some_bit (BitVec.eq_of_getLsbD_eq fun i inWord => ?_)
    rw [BitVec.getLsbD_and, wordOffset_getLsbD]
    by_cases here : i = n % type.bits
    · subst here
      simpa using clear
    · simp [here]
  · intro set zero
    have clear := congrArg (fun both => both.getLsbD (n % type.bits)) zero
    simp only [BitVec.getLsbD_and, set, wordOffset_getLsbD] at clear
    simp at clear

/-- What a change of one word does to the bits. -/
theorem bit_modify
    {change : BitVec type.bits → BitVec type.bits}
    (inMap : n < map.size) :
    BitmapOf.bit (map.modify (wordIndex type n) change) other =
      if other / type.bits = n / type.bits then
        (change (map.getD (n / type.bits) 0)).getLsbD (other % type.bits)
      else
        map.bit other := by
  have inWords := word_lt_iff.mpr inMap
  simp only [bit, wordIndex_eq, List.getD_eq_getElem?_getD,
    List.getElem?_modify]
  by_cases same : other / type.bits = n / type.bits
  · simp [same, inWords]
  · simp [same, Ne.symm same]

/-- Setting a bit inserts it. -/
theorem members_set
    (inMap : n < map.size) :
    (map.set n).members = insert n map.members := by
  ext other
  show (map.set n).bit other = true ↔ other = n ∨ map.bit other = true
  rw [BitmapOf.set, bit_modify inMap]
  by_cases word : other / type.bits = n / type.bits
  · rw [if_pos word, BitVec.getLsbD_or, wordOffset_getLsbD, bit, word,
      Bool.or_eq_true, decide_eq_true_iff, or_comm]
    refine or_congr_left ⟨eq_of_wordPlace word, ?_⟩
    rintro rfl
    rfl
  · rw [if_neg word]
    refine (or_iff_right ?_).symm
    rintro rfl
    exact word rfl

/-- Clearing a bit removes it. -/
theorem members_clr
    (inMap : n < map.size) :
    (map.clr n).members = map.members \ {n} := by
  ext other
  show (map.clr n).bit other = true ↔ map.bit other = true ∧ other ≠ n
  have inWord : other % type.bits < type.bits := Nat.mod_lt _ bits_pos
  rw [clr, bit_modify inMap]
  by_cases word : other / type.bits = n / type.bits
  · rw [if_pos word, BitVec.getLsbD_and, BitVec.getLsbD_not,
      wordOffset_getLsbD, bit, word, decide_eq_true inWord, Bool.true_and,
      Bool.and_eq_true, Bool.not_eq_true', decide_eq_false_iff_not]
    refine and_congr_right fun _ => not_congr ⟨eq_of_wordPlace word, ?_⟩
    rintro rfl
    rfl
  · rw [if_neg word]
    refine (and_iff_left ?_).symm
    rintro rfl
    exact word rfl

theorem members_zero :
    map.zero.members = ∅ := by
  refine eq_empty_of_forall_notMem fun n set => ?_
  have inWords := word_lt_iff.mpr (lt_size_of_bit set)
  rw [zero, List.length_map] at inWords
  have clear : map.zero.getD (n / type.bits) 0 = 0 := by
    simp [zero, List.getD_eq_getElem?_getD, inWords]
  have none : map.zero.bit n = true := set
  rw [bit, clear] at none
  simp at none

theorem members_fill :
    map.fill.members = Iio map.size := by
  ext n
  have inWord : n % type.bits < type.bits := Nat.mod_lt _ bits_pos
  show map.fill.bit n = true ↔ n < map.size
  rw [← word_lt_iff]
  by_cases inWords : n / type.bits < map.length
  · simp [bit, fill, List.getD_eq_getElem?_getD, inWords, inWord]
  · simp [bit, fill, List.getD_eq_getElem?_getD, inWords]

/-- The words of an inversion. -/
theorem getD_inv
    (i : Nat) :
    (v.inv out).getD i 0 =
      if i < min v.length out.length then ~~~v.getD i 0 else out.getD i 0 := by
  induction v generalizing out i with
  | nil => cases out <;> simp [inv]
  | cons word v inductionHypothesis =>
      cases out with
      | nil => simp [inv]
      | cons old out =>
          cases i with
          | zero => simp [inv]
          | succ i =>
              simp only [inv, List.getD_cons_succ, inductionHypothesis,
                List.length_cons, Nat.add_min_add_right,
                Nat.add_lt_add_iff_right]

/-- The words of a combination. -/
theorem getD_combine
    {op : BitVec type.bits → BitVec type.bits → BitVec type.bits}
    (i : Nat) :
    (combine op v1 v2 out).getD i 0 =
      if i < min (min v1.length v2.length) out.length then
        op (v1.getD i 0) (v2.getD i 0)
      else
        out.getD i 0 := by
  induction v1 generalizing v2 out i with
  | nil => simp [combine]
  | cons word1 v1 inductionHypothesis =>
      cases v2 with
      | nil => simp [combine]
      | cons word2 v2 =>
          cases out with
          | nil => simp [combine]
          | cons old out =>
              cases i with
              | zero => simp [combine]
              | succ i =>
                  simp only [combine, List.getD_cons_succ,
                    inductionHypothesis, List.length_cons,
                    Nat.add_min_add_right, Nat.add_lt_add_iff_right]

/-- What words both bitmaps have, told by their bits. -/
theorem word_lt_min_iff
    {first second : BitmapOf type} :
    n / type.bits < min first.length second.length ↔
      n < min first.size second.size := by
  rw [lt_min_iff, lt_min_iff, word_lt_iff, word_lt_iff]

/-- Inverting gives the complement, as far as both bitmaps go. -/
theorem members_inv :
    (v.inv out).members =
      (Iio (min v.size out.size)).ite v.membersᶜ out.members := by
  ext n
  have inWord : n % type.bits < type.bits := Nat.mod_lt _ bits_pos
  show (v.inv out).bit n = true ↔
    (¬ v.bit n = true ∧ n < min v.size out.size) ∨
      (out.bit n = true ∧ ¬ n < min v.size out.size)
  rw [bit, getD_inv, ← word_lt_min_iff]
  split
  case isTrue both =>
    simp [inWord, both, bit]
  case isFalse notBoth =>
    simp only [notBoth, and_false, not_false_eq_true, and_true, false_or]
    rfl

/-- An operation on words combines the sets, as far as the bitmaps go. -/
theorem members_combine
    {op : BitVec type.bits → BitVec type.bits → BitVec type.bits}
    {onSets : Set Nat}
    (same :
      ∀ n,
        (op (v1.getD (n / type.bits) 0) (v2.getD (n / type.bits) 0)).getLsbD
            (n % type.bits) = true ↔
          n ∈ onSets) :
    (combine op v1 v2 out).members =
      (Iio (min (min v1.size v2.size) out.size)).ite onSets out.members := by
  ext n
  show (combine op v1 v2 out).bit n = true ↔
    (n ∈ onSets ∧ n < min (min v1.size v2.size) out.size) ∨
      (out.bit n = true ∧ ¬ n < min (min v1.size v2.size) out.size)
  have words :
      n / type.bits < min (min v1.length v2.length) out.length ↔
        n < min (min v1.size v2.size) out.size := by
    rw [lt_min_iff, word_lt_min_iff, word_lt_iff, ← lt_min_iff]
  rw [bit, getD_combine, ← words]
  split
  case isTrue both =>
    rw [same]
    simp only [both, and_true, not_true_eq_false, and_false, or_false]
  case isFalse notBoth =>
    simp only [notBoth, and_false, not_false_eq_true, and_true, false_or]
    rfl

theorem members_and :
    (v1.and v2 out).members =
      (Iio (min (min v1.size v2.size) out.size)).ite
        (v1.members ∩ v2.members) out.members :=
  members_combine fun n => by
    rw [BitVec.getLsbD_and, Bool.and_eq_true]
    rfl

theorem members_or :
    (v1.or v2 out).members =
      (Iio (min (min v1.size v2.size) out.size)).ite
        (v1.members ∪ v2.members) out.members :=
  members_combine fun n => by
    rw [BitVec.getLsbD_or, Bool.or_eq_true]
    rfl

theorem members_xor :
    (v1.xor v2 out).members =
      (Iio (min (min v1.size v2.size) out.size)).ite
        (symmDiff v1.members v2.members) out.members :=
  members_combine fun n => by
    rw [BitVec.getLsbD_xor, Set.mem_symmDiff]
    show (v1.bit n ^^ v2.bit n) = true ↔
      v1.bit n = true ∧ ¬ v2.bit n = true ∨
        v2.bit n = true ∧ ¬ v1.bit n = true
    cases v1.bit n <;> cases v2.bit n <;> decide

/-! ## Sizes -/

@[simp] theorem size_set :
    (map.set n).size = map.size := by
  simp [size, BitmapOf.set]

@[simp] theorem size_clr :
    (map.clr n).size = map.size := by
  simp [size, clr]

@[simp] theorem size_zero :
    map.zero.size = map.size := by
  simp [size, zero]

@[simp] theorem size_fill :
    map.fill.size = map.size := by
  simp [size, fill]

@[simp] theorem size_inv :
    (v.inv out).size = out.size := by
  have same : (v.inv out).length = out.length := by
    induction v generalizing out with
    | nil => cases out <;> rfl
    | cons word v inductionHypothesis =>
        cases out with
        | nil => rfl
        | cons old out => exact congrArg (· + 1) inductionHypothesis
  rw [size, same, size]

theorem size_combine
    {op : BitVec type.bits → BitVec type.bits → BitVec type.bits} :
    (combine op v1 v2 out).size = out.size := by
  have same : (combine op v1 v2 out).length = out.length := by
    induction v1 generalizing v2 out with
    | nil => cases v2 <;> cases out <;> rfl
    | cons word1 v1 inductionHypothesis =>
        cases v2 with
        | nil => cases out <;> rfl
        | cons word2 v2 =>
            cases out with
            | nil => rfl
            | cons old out => exact congrArg (· + 1) inductionHypothesis
  rw [size, same, size]

end BitmapOf

end Bits

/-! ## Runs -/

section Runs

variable {Name : Type*}
variable [DecidableEq Name]
variable {type : WordType}
variable {maps : Name → BitmapOf type}

/-- No operation changes the size of a bitmap. -/
theorem BitmapOp.size_run
    (op : BitmapOp Name)
    (name : Name) :
    (op.run maps name).size = (maps name).size := by
  have updated :
      ∀ v (map : BitmapOf type),
        map.size = (maps v).size →
          (Function.update maps v map name).size = (maps name).size := by
    intro v map same
    by_cases isName : name = v
    · subst isName
      rw [Function.update_self, same]
    · rw [Function.update_of_ne isName]
  cases op with
  | set n v => exact updated v _ BitmapOf.size_set
  | clr n v => exact updated v _ BitmapOf.size_clr
  | zero v => exact updated v _ BitmapOf.size_zero
  | fill v => exact updated v _ BitmapOf.size_fill
  | inv v out => exact updated out _ BitmapOf.size_inv
  | and v1 v2 out => exact updated out _ BitmapOf.size_combine
  | or v1 v2 out => exact updated out _ BitmapOf.size_combine
  | xor v1 v2 out => exact updated out _ BitmapOf.size_combine

/-- An operation on bitmaps is that on their sets. -/
theorem BitmapOp.members_run
    {op : BitmapOp Name}
    (inRange : op.InRange fun name => (maps name).size)
    (name : Name) :
    (op.run maps name).members =
      op.onSets (fun name => (maps name).size) (fun name => (maps name).members)
        name := by
  have updated :
      ∀ v (map : BitmapOf type) set,
        map.members = set →
          (Function.update maps v map name).members =
            Function.update (fun name => (maps name).members) v set name := by
    intro v map set same
    by_cases isName : name = v
    · subst isName
      rw [Function.update_self, Function.update_self, same]
    · rw [Function.update_of_ne isName, Function.update_of_ne isName]
  cases op with
  | set n v => exact updated v _ _ (BitmapOf.members_set inRange)
  | clr n v => exact updated v _ _ (BitmapOf.members_clr inRange)
  | zero v => exact updated v _ _ BitmapOf.members_zero
  | fill v => exact updated v _ _ BitmapOf.members_fill
  | inv v out => exact updated out _ _ BitmapOf.members_inv
  | and v1 v2 out => exact updated out _ _ BitmapOf.members_and
  | or v1 v2 out => exact updated out _ _ BitmapOf.members_or
  | xor v1 v2 out => exact updated out _ _ BitmapOf.members_xor

theorem size_runBitmapOps
    {ops : List (BitmapOp Name)}
    (name : Name) :
    (runBitmapOps ops maps name).size = (maps name).size := by
  induction ops generalizing maps with
  | nil => rfl
  | cons op later inductionHypothesis =>
      exact inductionHypothesis.trans (op.size_run name)

/-- So are operations one after the other. -/
theorem members_runBitmapOps
    {ops : List (BitmapOp Name)}
    (inRange : ∀ op ∈ ops, op.InRange fun name => (maps name).size) :
    (fun name => (runBitmapOps ops maps name).members) =
      bitmapOpsOnSets (fun name => (maps name).size) ops
        fun name => (maps name).members := by
  induction ops generalizing maps with
  | nil => rfl
  | cons op later inductionHypothesis =>
      have sizes :
          (fun name => (op.run maps name).size) = fun name => (maps name).size :=
        funext op.size_run
      have sets :
          (fun name => (op.run maps name).members) =
            op.onSets (fun name => (maps name).size)
              fun name => (maps name).members :=
        funext (BitmapOp.members_run (inRange op List.mem_cons_self))
      have laterInRange :
          ∀ next ∈ later, next.InRange fun name => (op.run maps name).size := by
        rw [sizes]
        exact fun next member => inRange next (List.mem_cons_of_mem op member)
      have rest := inductionHypothesis laterInRange
      rw [sizes, sets] at rest
      exact rest

end Runs

end RiscvWorkshop.Bitops
