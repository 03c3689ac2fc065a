import Mathlib

namespace RiscvWorkshop.Bitops

/-!
# Bitmaps of 64-bit words

The first clear bit of a bitmap is found word by word, and in a word by
halving the range in which its first bit must be.  A bit outside the words is
never set.
-/

/-- `BITOPS_LOWER_MASK64`. -/
def bitopsLowerMask64 (len : Nat) : BitVec 64 :=
  (1#64 <<< len) - 1

/--
The loop of `bitops_ffs64`; its width is the power of two before the count of
the turns that are left.
-/
def ffsLoop : Nat → BitVec 64 → Nat → Nat
  | 0, _, v => v
  | turns + 1, n, v =>
      let b := 2 ^ turns
      if n &&& bitopsLowerMask64 b = 0 then
        ffsLoop turns (n >>> b) (v + b)
      else
        ffsLoop turns n v

/-- `bitops_ffs64`: the place of the first bit, counted from 1; 0 for none. -/
def bitopsFfs64 (n : BitVec 64) : Nat :=
  if n = 0 then 0 else ffsLoop 6 n 1

/-- The words of a bitmap, `BITMAP_TYPE(, uint64_t, n)`. -/
abbrev Bitmap := List (BitVec 64)

/-- `__BITMAP_ARRAY_LEN`. -/
def bitmapArrayLen (n : Nat) : Nat :=
  (n + 63) / 64

/-- `__BITMAP_INDEX`. -/
def bitmapIndex (n : Nat) : Nat :=
  n >>> 6

/-- `__BITMAP_OFFSET`. -/
def bitmapOffset (n : Nat) : BitVec 64 :=
  1#64 <<< (n &&& 63)

/-- `bitops_zero`, for a bitmap of a given number of bits. -/
def bitopsZero (n : Nat) : Bitmap :=
  List.replicate (bitmapArrayLen n) 0

/-- `bitops_set`. -/
def bitopsSet (n : Nat) (map : Bitmap) : Bitmap :=
  map.modify (bitmapIndex n) (· ||| bitmapOffset n)

/-- `bitops_clr`. -/
def bitopsClr (n : Nat) (map : Bitmap) : Bitmap :=
  map.modify (bitmapIndex n) (· &&& ~~~bitmapOffset n)

/-- `__bitops_ffs` from a word on. -/
def ffsFrom : Nat → Bitmap → Nat
  | _, [] => 0
  | i, word :: rest =>
      let off := bitopsFfs64 word
      if off ≠ 0 then 64 * i + off else ffsFrom (i + 1) rest

/-- `bitops_ffs`: the place of the first set bit, from 1; 0 for none. -/
def bitopsFfs (map : Bitmap) : Nat :=
  ffsFrom 0 map

/-- `__bitops_ffc` from a word on. -/
def ffcFrom : Nat → Bitmap → Nat
  | _, [] => 0
  | i, word :: rest =>
      let off := bitopsFfs64 (~~~word)
      if off ≠ 0 then 64 * i + off else ffcFrom (i + 1) rest

/-- `bitops_ffc`: the place of the first clear bit, from 1; 0 for none. -/
def bitopsFfc (map : Bitmap) : Nat :=
  ffcFrom 0 map

/-- Whether a bit of the bitmap is set. -/
def isset (map : Bitmap) (n : Nat) : Bool :=
  (map.getD (n / 64) 0).getLsbD (n % 64)

/-! ## The first bit of a word -/

/-- The mask has the bits below its length. -/
theorem bitopsLowerMask64_getLsbD
    {len : Nat}
    (small : len < 64)
    (i : Nat) :
    (bitopsLowerMask64 len).getLsbD i = decide (i < len) := by
  have value : bitopsLowerMask64 len = BitVec.ofNat 64 (2 ^ len - 1) := by
    have below : 2 ^ len < 2 ^ 64 :=
      Nat.pow_lt_pow_right (by decide) small
    have positive : 0 < 2 ^ len :=
      Nat.two_pow_pos len
    have one : (1 : BitVec 64).toNat = 1 :=
      rfl
    apply BitVec.eq_of_toNat_eq
    rw [bitopsLowerMask64, BitVec.toNat_sub, BitVec.toNat_shiftLeft, one,
      BitVec.toNat_ofNat, BitVec.toNat_ofNat, Nat.shiftLeft_eq]
    omega
  rw [value, BitVec.getLsbD_ofNat, Nat.testBit_two_pow_sub_one]
  by_cases inWord : i < 64
  · simp [inWord]
  · simp only [inWord, decide_false, Bool.false_and]
    exact (decide_eq_false (by omega)).symm

/-- A word without the bits of the mask has none below its length. -/
theorem and_lowerMask_eq_zero
    {len : Nat}
    (small : len < 64)
    (n : BitVec 64) :
    n &&& bitopsLowerMask64 len = 0 ↔ ∀ i < len, n.getLsbD i = false := by
  constructor
  · intro none i below
    have bit := congrArg (fun word => word.getLsbD i) none
    simpa [bitopsLowerMask64_getLsbD small, below] using bit
  · intro none
    apply BitVec.eq_of_getLsbD_eq
    intro i inWord
    rw [BitVec.getLsbD_and, bitopsLowerMask64_getLsbD small]
    by_cases below : i < len
    · simp [none i below]
    · simp [below]

/-- The first bit of a word is at a place. -/
structure FirstBit
    (n : BitVec 64)
    (first : Nat) : Prop where
  set : n.getLsbD first = true
  clear : ∀ i < first, n.getLsbD i = false

/-- A word that is not zero has a first bit. -/
theorem exists_firstBit
    {n : BitVec 64}
    (some_bit : n ≠ 0) :
    ∃ first < 64, FirstBit n first := by
  have found : ∃ i, n.getLsbD i = true := by
    by_contra none
    refine some_bit (BitVec.eq_of_getLsbD_eq fun i inWord => ?_)
    have clear := not_exists.mp none i
    simpa using clear
  classical
  refine ⟨Nat.find found, ?_, Nat.find_spec found, fun i before => ?_⟩
  · by_contra big
    have outside := BitVec.getLsbD_of_ge n (Nat.find found) (Nat.not_lt.mp big)
    rw [Nat.find_spec found] at outside
    cases outside
  · exact Bool.eq_false_of_not_eq_true (Nat.find_min found before)

/-- The loop adds the place of the first bit, which is in its range. -/
theorem ffsLoop_eq
    {turns first : Nat}
    {n : BitVec 64}
    (few : turns ≤ 6)
    (firstBit : FirstBit n first)
    (inRange : first < 2 ^ turns)
    (v : Nat) :
    ffsLoop turns n v = v + first := by
  induction turns generalizing n first v with
  | zero =>
      have isZero : first = 0 :=
        Nat.lt_one_iff.mp inRange
      rw [ffsLoop, isZero, Nat.add_zero]
  | succ turns inductionHypothesis =>
      have small : 2 ^ turns < 64 :=
        Nat.pow_lt_pow_right (by decide : 1 < 2) (by omega : turns < 6)
      rw [ffsLoop]
      simp only [and_lowerMask_eq_zero small]
      split
      case isTrue none =>
        have above : 2 ^ turns ≤ first := by
          by_contra below
          have bit := none first (Nat.not_le.mp below)
          rw [firstBit.set] at bit
          cases bit
        have shifted : FirstBit (n >>> 2 ^ turns) (first - 2 ^ turns) := by
          constructor
          · rw [BitVec.getLsbD_ushiftRight, Nat.add_sub_cancel' above]
            exact firstBit.set
          · intro i before
            rw [BitVec.getLsbD_ushiftRight]
            exact firstBit.clear _ (by omega)
        rw [inductionHypothesis (by omega) shifted
          (by rw [pow_succ] at inRange; omega)]
        omega
      case isFalse bit =>
        have below : first < 2 ^ turns := by
          by_contra above
          exact bit fun i inMask => firstBit.clear i (by omega)
        exact inductionHypothesis (by omega) firstBit below v

/-- No bit is found exactly in the zero word. -/
theorem bitopsFfs64_eq_zero
    (n : BitVec 64) :
    bitopsFfs64 n = 0 ↔ n = 0 := by
  rw [bitopsFfs64]
  split
  case isTrue zero => simp [zero]
  case isFalse some_bit =>
    obtain ⟨first, inWord, firstBit⟩ := exists_firstBit some_bit
    rw [ffsLoop_eq (le_refl 6) firstBit inWord]
    exact ⟨fun none => by omega, fun zero => absurd zero some_bit⟩

/-- The bit that is found is the first one. -/
theorem bitopsFfs64_firstBit
    {n : BitVec 64}
    (some_bit : bitopsFfs64 n ≠ 0) :
    ∃ first < 64, bitopsFfs64 n = first + 1 ∧ FirstBit n first := by
  have nonzero := (bitopsFfs64_eq_zero n).not.mp some_bit
  obtain ⟨first, inWord, firstBit⟩ := exists_firstBit nonzero
  refine ⟨first, inWord, ?_, firstBit⟩
  rw [bitopsFfs64, if_neg nonzero, ffsLoop_eq (le_refl 6) firstBit inWord,
    Nat.add_comm]

/-! ## The bits of a bitmap -/

section Bits

variable {map : Bitmap}
variable {n : Nat}

theorem bitmapIndex_eq (n : Nat) : bitmapIndex n = n / 64 :=
  Nat.shiftRight_eq_div_pow n 6

/-- The offset is the one bit of its word. -/
theorem bitmapOffset_getLsbD
    (n i : Nat) :
    (bitmapOffset n).getLsbD i = decide (i = n % 64) := by
  have place : n &&& 63 = n % 64 :=
    Nat.and_two_pow_sub_one_eq_mod n 6
  rw [bitmapOffset, place, ← BitVec.twoPow_eq, BitVec.getLsbD_twoPow]
  have inWord : n % 64 < 64 :=
    Nat.mod_lt n (by decide)
  simp [inWord, eq_comm]

@[simp] theorem bitopsSet_length
    (n : Nat)
    (map : Bitmap) :
    (bitopsSet n map).length = map.length :=
  List.length_modify ..

@[simp] theorem bitopsClr_length
    (n : Nat)
    (map : Bitmap) :
    (bitopsClr n map).length = map.length :=
  List.length_modify ..

/-- A word that is modified by its bits modifies its bits of the bitmap. -/
theorem isset_modify
    {change : BitVec 64 → BitVec 64}
    {bit : Nat → Bool → Bool}
    (changed : ∀ word i,
      i < 64 → (change word).getLsbD i = bit i (word.getLsbD i))
    (inMap : n / 64 < map.length)
    (other : Nat) :
    isset (map.modify (n / 64) change) other =
      if other / 64 = n / 64 then bit (other % 64) (isset map other)
      else isset map other := by
  have inWord : other % 64 < 64 :=
    Nat.mod_lt other (by decide)
  simp only [isset, List.getD_eq_getElem?_getD, List.getElem?_modify]
  by_cases same : other / 64 = n / 64
  · obtain ⟨word, found⟩ : ∃ word, map[n / 64]? = some word :=
      ⟨_, List.getElem?_eq_getElem inMap⟩
    simp [same, found, changed word _ inWord]
  · have different : ¬ n / 64 = other / 64 :=
      fun eq => same eq.symm
    simp [same, different]

/-- Two numbers of one word and one place in it are the same. -/
theorem eq_of_place
    {other : Nat}
    (word : other / 64 = n / 64)
    (place : other % 64 = n % 64) :
    other = n := by
  rw [← Nat.div_add_mod other 64, ← Nat.div_add_mod n 64, word, place]

/-- Setting a bit sets this one. -/
theorem isset_bitopsSet
    (inMap : n < 64 * map.length)
    (other : Nat) :
    isset (bitopsSet n map) other = (decide (other = n) || isset map other) := by
  have changed : ∀ (word : BitVec 64) i,
      i < 64 →
        (word ||| bitmapOffset n).getLsbD i =
          (fun i set => decide (i = n % 64) || set) i (word.getLsbD i) := by
    intro word i _
    rw [BitVec.getLsbD_or, bitmapOffset_getLsbD, Bool.or_comm]
  rw [bitopsSet, bitmapIndex_eq,
    isset_modify changed (Nat.div_lt_of_lt_mul inMap)]
  by_cases same : other = n
  · simp [same]
  · by_cases word : other / 64 = n / 64
    · have place : other % 64 ≠ n % 64 :=
        fun eq => same (eq_of_place word eq)
      simp [same, word, place]
    · simp [same, word]

/-- Clearing a bit clears this one. -/
theorem isset_bitopsClr
    (inMap : n < 64 * map.length)
    (other : Nat) :
    isset (bitopsClr n map) other = (!decide (other = n) && isset map other) := by
  have changed : ∀ (word : BitVec 64) i,
      i < 64 →
        (word &&& ~~~bitmapOffset n).getLsbD i =
          (fun i set => !decide (i = n % 64) && set) i (word.getLsbD i) := by
    intro word i inWord
    rw [BitVec.getLsbD_and, BitVec.getLsbD_not, bitmapOffset_getLsbD,
      Bool.and_comm]
    simp [inWord]
  rw [bitopsClr, bitmapIndex_eq,
    isset_modify changed (Nat.div_lt_of_lt_mul inMap)]
  by_cases same : other = n
  · simp [same]
  · by_cases word : other / 64 = n / 64
    · have place : other % 64 ≠ n % 64 :=
        fun eq => same (eq_of_place word eq)
      simp [same, word, place]
    · simp [same, word]

theorem isset_bitopsZero
    (bits n : Nat) :
    isset (bitopsZero bits) n = false := by
  rw [isset, bitopsZero, List.getD_eq_getElem?_getD]
  by_cases inMap : n / 64 < bitmapArrayLen bits
  · simp [inMap]
  · simp [inMap]

/-! ## The first clear bit -/

/-- A bit of the first word, or of the other words. -/
theorem isset_cons
    (word : BitVec 64)
    (rest : Bitmap)
    (n : Nat) :
    isset (word :: rest) n =
      if n < 64 then word.getLsbD n else isset rest (n - 64) := by
  simp only [isset]
  by_cases inWord : n < 64
  · rw [Nat.div_eq_of_lt inWord, Nat.mod_eq_of_lt inWord, if_pos inWord]
    rfl
  · obtain ⟨later, rfl⟩ := Nat.exists_eq_add_of_le (Nat.not_lt.mp inWord)
    rw [if_neg inWord, Nat.add_sub_cancel_left, Nat.add_mod_left,
      Nat.add_div_left later (by decide)]
    rfl

/-- The search from a word on finds the first set bit of the other words. -/
theorem ffsFrom_eq
    (map : Bitmap)
    (i : Nat) :
    (ffsFrom i map = 0 ∧ ∀ n < 64 * map.length, isset map n = false) ∨
      ∃ n < 64 * map.length,
        ffsFrom i map = 64 * i + n + 1 ∧ isset map n = true := by
  induction map generalizing i with
  | nil =>
      exact .inl ⟨rfl, by simp⟩
  | cons word rest inductionHypothesis =>
      rw [ffsFrom]
      by_cases empty : bitopsFfs64 word = 0
      · have zero := (bitopsFfs64_eq_zero _).mp empty
        simp only [empty, ne_eq, not_true_eq_false, if_false]
        rcases inductionHypothesis (i + 1) with
          ⟨none, restClear⟩ | ⟨n, inRest, found, set⟩
        · refine .inl ⟨none, fun n inMap => ?_⟩
          rw [isset_cons]
          split
          case isTrue inWord => simp [zero]
          case isFalse later =>
            rw [List.length_cons] at inMap
            exact restClear (n - 64) (by omega)
        · refine .inr ⟨n + 64, ?_, ?_, ?_⟩
          · rw [List.length_cons]
            omega
          · rw [found]
            omega
          · rw [isset_cons, if_neg (by omega), Nat.add_sub_cancel]
            exact set
      · obtain ⟨first, inWord, found, firstBit⟩ := bitopsFfs64_firstBit empty
        refine .inr ⟨first, ?_, ?_, ?_⟩
        · rw [List.length_cons]
          omega
        · rw [if_pos empty, found]
          rfl
        · rw [isset_cons, if_pos inWord]
          exact firstBit.set

/-- The bits before the one that the search finds are clear. -/
theorem ffsFrom_before
    {map : Bitmap}
    {i place : Nat}
    (found : ffsFrom i map = 64 * i + place + 1) :
    ∀ n < place, isset map n = false := by
  induction map generalizing i place with
  | nil =>
      cases found
  | cons word rest inductionHypothesis =>
      intro n before
      rw [ffsFrom] at found
      rw [isset_cons]
      by_cases empty : bitopsFfs64 word = 0
      · have zero := (bitopsFfs64_eq_zero _).mp empty
        simp only [empty, ne_eq, not_true_eq_false, if_false] at found
        split
        case isTrue inWord => simp [zero]
        case isFalse later =>
          have inRest :
              ffsFrom (i + 1) rest = 64 * (i + 1) + (place - 64) + 1 := by
            omega
          exact inductionHypothesis inRest (n - 64) (by omega)
      · obtain ⟨first, inWord, place64, firstBit⟩ := bitopsFfs64_firstBit empty
        rw [if_pos empty, place64] at found
        rw [if_pos (by omega)]
        exact firstBit.clear n (by omega)

/-- Either every bit is clear, or the place is one of a set bit. -/
theorem bitopsFfs_eq
    (map : Bitmap) :
    (bitopsFfs map = 0 ∧ ∀ n < 64 * map.length, isset map n = false) ∨
      ∃ n < 64 * map.length,
        bitopsFfs map = n + 1 ∧ isset map n = true := by
  have found := ffsFrom_eq map 0
  simpa [bitopsFfs] using found

/-- The search for a clear bit is one for a set bit of the complement. -/
theorem ffcFrom_eq_ffsFrom
    (map : Bitmap)
    (i : Nat) :
    ffcFrom i map = ffsFrom i (map.map (~~~·)) := by
  induction map generalizing i with
  | nil => rfl
  | cons word rest inductionHypothesis =>
      rw [ffcFrom, List.map_cons, ffsFrom, inductionHypothesis]

/-- The bits of the complement. -/
theorem isset_map_not
    (inMap : n < 64 * map.length) :
    isset (map.map (~~~·)) n = !isset map n := by
  have word : n / 64 < map.length := Nat.div_lt_of_lt_mul inMap
  have inWord : n % 64 < 64 := Nat.mod_lt n (by decide)
  simp only [isset, List.getD_eq_getElem?_getD, List.getElem?_map,
    List.getElem?_eq_getElem word, Option.map_some, Option.getD_some,
    BitVec.getLsbD_not, inWord, decide_true, Bool.true_and]

/-- No bit is found exactly when all are set; else the one found is clear. -/
theorem bitopsFfc_eq
    (map : Bitmap) :
    (bitopsFfc map = 0 ∧ ∀ n < 64 * map.length, isset map n = true) ∨
      ∃ n < 64 * map.length,
        bitopsFfc map = n + 1 ∧ isset map n = false := by
  have complement : bitopsFfc map = bitopsFfs (map.map (~~~·)) :=
    ffcFrom_eq_ffsFrom map 0
  have found := bitopsFfs_eq (map.map (~~~·))
  rw [← complement, List.length_map] at found
  rcases found with ⟨none, clear⟩ | ⟨n, inMap, place, set⟩
  · refine .inl ⟨none, fun n inMap => ?_⟩
    have bit := clear n inMap
    rwa [isset_map_not inMap, Bool.not_eq_false'] at bit
  · refine .inr ⟨n, inMap, place, ?_⟩
    rwa [isset_map_not inMap, Bool.not_eq_true'] at set

/-- The bits before the clear one that is found are set. -/
theorem bitopsFfc_before
    {map : Bitmap}
    {place : Nat}
    (inMap : place < 64 * map.length)
    (found : bitopsFfc map = place + 1) :
    ∀ n < place, isset map n = true := by
  intro n before
  rw [bitopsFfc, ffcFrom_eq_ffsFrom] at found
  have clear := ffsFrom_before (i := 0) (by simpa using found) n before
  rwa [isset_map_not (by omega), Bool.not_eq_false'] at clear

/-- Setting a bit keeps the number of words. -/
theorem length_bitopsSet
    (map : Bitmap)
    (n : Nat) :
    (bitopsSet n map).length = map.length := by
  rw [bitopsSet, List.length_modify]

/-- Two bitmaps of one length with the same bits are the same. -/
theorem bitmap_ext
    {map other : Bitmap}
    (length : map.length = other.length)
    (bits : ∀ n < 64 * map.length, isset map n = isset other n) :
    map = other := by
  refine List.ext_getElem length fun word inFirst inSecond => ?_
  refine BitVec.eq_of_getLsbD_eq fun i inWord => ?_
  have same := bits (64 * word + i) (by omega)
  have place : (64 * word + i) / 64 = word ∧ (64 * word + i) % 64 = i := by
    omega
  simpa only [isset, place.1, place.2, List.getD_eq_getElem?_getD,
    List.getElem?_eq_getElem inFirst, List.getElem?_eq_getElem inSecond,
    Option.getD_some] using same

/-- Clearing a bit outside the words does nothing. -/
theorem bitopsClr_of_outside
    (outside : 64 * map.length ≤ n) :
    bitopsClr n map = map := by
  rw [bitopsClr, bitmapIndex_eq]
  exact List.modify_eq_self (by omega)

/-- A bit that was set is cleared again, and no other call undoes its setting. -/
theorem bitopsClr_bitopsSet_iff
    {id : Nat}
    (inMap : n < 64 * map.length)
    (clear : isset map n = false) :
    bitopsClr id (bitopsSet n map) = map ↔ id = n := by
  have inSet : n < 64 * (bitopsSet n map).length := by
    rwa [bitopsSet_length]
  constructor
  · intro same
    have bit : isset (bitopsClr id (bitopsSet n map)) n = false := by
      rw [same, clear]
    by_cases inside : id < 64 * (bitopsSet n map).length
    · rw [isset_bitopsClr inside, isset_bitopsSet inMap] at bit
      have same : n = id := by simpa using bit
      exact same.symm
    · rw [bitopsClr_of_outside (by omega), isset_bitopsSet inMap] at bit
      simp at bit
  · rintro rfl
    refine bitmap_ext (by simp) fun other inside => ?_
    rw [isset_bitopsClr inSet, isset_bitopsSet inMap]
    by_cases here : other = id
    · simp [here, clear]
    · simp [here]

end Bits

end RiscvWorkshop.Bitops
