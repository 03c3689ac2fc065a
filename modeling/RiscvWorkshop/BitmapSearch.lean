import Mathlib
import RiscvWorkshop.BitmapRuns

namespace RiscvWorkshop.Bitops

open Set

/-!
# The searches in a bitmap

A search goes over the words with a counter of 32 bits.  The one for the first
bit comes round again after 2^32 words; the one for the last bit begins at the
number of the words modulo 2^32 and fails at the first negative index.
-/

section Search

variable {type : WordType}

/-- Which bits of a word are looked for. -/
abbrev BitChoice (type : WordType) := BitVec type.bits → Nat → Bool

/-- A search for the first bit in a word. -/
structure FindsFirst
    (find : BitVec type.bits → Nat)
    (bits : BitChoice type) : Prop where
  none :
    ∀ word, find word = 0 → ∀ i < type.bits, bits word i = false
  found :
    ∀ word, find word ≠ 0 →
      ∃ first < type.bits,
        find word = first + 1 ∧ bits word first = true ∧
          ∀ i < first, bits word i = false

/-- A search for the last bit in a word. -/
structure FindsLast
    (find : BitVec type.bits → Nat)
    (bits : BitChoice type) : Prop where
  none :
    ∀ word, find word = 0 → ∀ i < type.bits, bits word i = false
  found :
    ∀ word, find word ≠ 0 →
      ∃ last < type.bits,
        find word = last + 1 ∧ bits word last = true ∧
          ∀ i < type.bits, last < i → bits word i = false

/-- The bits that are looked for in a bitmap. -/
def BitmapOf.chosen
    (bits : BitChoice type)
    (map : BitmapOf type) : Set Nat :=
  {n | n < map.size ∧
    bits (map.getD (n / type.bits) 0) (n % type.bits) = true}

theorem BitmapOf.chosen_set
    (map : BitmapOf type) :
    map.chosen (fun word i => word.getLsbD i) = map.members := by
  ext n
  exact and_iff_right_of_imp BitmapOf.lt_size_of_bit

theorem BitmapOf.chosen_clear
    (map : BitmapOf type) :
    map.chosen (fun word i => !word.getLsbD i) = map.nonmembers := by
  ext n
  refine and_congr_right fun inMap => ?_
  rw [Bool.not_eq_true', ← Bool.not_eq_true]
  rfl

/-- The search for the first set bit in a word. -/
theorem findsFirst_set :
    FindsFirst type.ffs fun word i => word.getLsbD i where
  none := by
    intro word none i inWord
    rw [(type.ffs_eq word).1.mp none, BitVec.ofNat_eq_ofNat,
      BitVec.getLsbD_zero]
  found := by
    intro word some_bit
    obtain ⟨first, firstOf⟩ :=
      exists_firstOf ((type.ffs_eq word).1.not.mp some_bit)
    exact ⟨first, lt_of_getLsbD firstOf.set,
      (type.ffs_eq word).2 first firstOf, firstOf.set, firstOf.clear⟩

theorem findsLast_set :
    FindsLast type.fls fun word i => word.getLsbD i where
  none := by
    intro word none i inWord
    rw [(type.fls_eq word).1.mp none, BitVec.ofNat_eq_ofNat,
      BitVec.getLsbD_zero]
  found := by
    intro word some_bit
    obtain ⟨last, lastOf⟩ :=
      exists_lastOf ((type.fls_eq word).1.not.mp some_bit)
    exact ⟨last, lt_of_getLsbD lastOf.set,
      (type.fls_eq word).2 last lastOf, lastOf.set,
      fun i _ => lastOf.clear i⟩

/-- The clear bits of a word are the set ones of its complement. -/
theorem getLsbD_complement
    {word : BitVec type.bits}
    {i : Nat}
    (inWord : i < type.bits) :
    (~~~word).getLsbD i = !word.getLsbD i := by
  rw [BitVec.getLsbD_not, decide_eq_true inWord, Bool.true_and]

theorem findsFirst_clear :
    FindsFirst (fun word => type.ffs (~~~word))
      fun word i => !word.getLsbD i where
  none := by
    intro word none i inWord
    rw [← getLsbD_complement inWord]
    exact findsFirst_set.none _ none i inWord
  found := by
    intro word some_bit
    obtain ⟨first, inWord, isPlace, set, before⟩ :=
      findsFirst_set.found _ some_bit
    refine ⟨first, inWord, isPlace, ?_, fun i less => ?_⟩
    · rw [← getLsbD_complement inWord]
      exact set
    · rw [← getLsbD_complement (less.trans inWord)]
      exact before i less

theorem findsLast_clear :
    FindsLast (fun word => type.fls (~~~word))
      fun word i => !word.getLsbD i where
  none := by
    intro word none i inWord
    rw [← getLsbD_complement inWord]
    exact findsLast_set.none _ none i inWord
  found := by
    intro word some_bit
    obtain ⟨last, inWord, isPlace, set, behind⟩ :=
      findsLast_set.found _ some_bit
    refine ⟨last, inWord, isPlace, ?_, fun i inside less => ?_⟩
    · rw [← getLsbD_complement inWord]
      exact set
    · rw [← getLsbD_complement inside]
      exact behind i inside less

variable {find : BitVec type.bits → Nat}
variable {bits : BitChoice type}
variable {map : BitmapOf type}

/-- A bit of a word is one of the bitmap. -/
theorem BitmapOf.mem_chosen
    {i place : Nat}
    (inMap : i < map.length)
    (inWord : place < type.bits) :
    type.bits * i + place ∈ map.chosen bits ↔
      bits (map.getD i 0) place = true := by
  have word : (type.bits * i + place) / type.bits = i := by
    rw [Nat.mul_add_div bits_pos, Nat.div_eq_of_lt inWord, Nat.add_zero]
  have here : (type.bits * i + place) % type.bits = place := by
    rw [Nat.mul_add_mod, Nat.mod_eq_of_lt inWord]
  show (_ < map.size ∧ _) ↔ _
  rw [word, here, and_iff_right]
  rw [← word_lt_iff, word]
  exact inMap

/-- A bit that is chosen is in a word where the search finds one. -/
theorem FindsFirst.find_ne_zero
    {n : Nat}
    (finds : FindsFirst find bits)
    (chosen : n ∈ map.chosen bits) :
    n / type.bits < map.length ∧ find (map.getD (n / type.bits) 0) ≠ 0 := by
  refine ⟨BitmapOf.word_lt_iff.mpr chosen.1, fun none => ?_⟩
  have clear := finds.none _ none _ (Nat.mod_lt n bits_pos)
  rw [chosen.2] at clear
  cases clear

theorem FindsLast.find_ne_zero
    {n : Nat}
    (finds : FindsLast find bits)
    (chosen : n ∈ map.chosen bits) :
    n / type.bits < map.length ∧ find (map.getD (n / type.bits) 0) ≠ 0 := by
  refine ⟨BitmapOf.word_lt_iff.mpr chosen.1, fun none => ?_⟩
  have clear := finds.none _ none _ (Nat.mod_lt n bits_pos)
  rw [chosen.2] at clear
  cases clear

/-! ## The first bit -/

/-- Over words without a bit the search goes on. -/
theorem searchFirst_reach
    {i : Nat}
    (inMap : i ≤ map.length)
    (counted : i < 2 ^ 32)
    (none : ∀ j < i, find (map.getD j 0) = 0)
    (turns : Nat) :
    BitmapOf.searchFirst find map (turns + i) 0 =
      BitmapOf.searchFirst find map turns i := by
  induction i generalizing turns with
  | zero => rfl
  | succ i inductionHypothesis =>
      have before :=
        inductionHypothesis (Nat.le_of_succ_le inMap)
          (Nat.lt_of_succ_lt counted)
          (fun j less => none j (Nat.lt_succ_of_lt less)) (turns + 1)
      rw [Nat.add_right_comm] at before
      rw [← Nat.add_assoc, before, BitmapOf.searchFirst,
        if_pos (Nat.lt_of_succ_le inMap)]
      simp only [none i i.lt_succ_self, ne_eq, not_true_eq_false, if_false,
        Nat.mod_eq_of_lt counted]

/-- The counter never leaves 2^32 words without a bit. -/
theorem searchFirst_stuck
    (long : 2 ^ 32 ≤ map.length)
    (none : ∀ j < 2 ^ 32, find (map.getD j 0) = 0)
    {i : Nat}
    (counted : i < 2 ^ 32)
    (turns : Nat) :
    BitmapOf.searchFirst find map turns i = .none := by
  induction turns generalizing i with
  | zero => rfl
  | succ turns inductionHypothesis =>
      rw [BitmapOf.searchFirst, if_pos (Nat.lt_of_lt_of_le counted long)]
      simp only [none i counted, ne_eq, not_true_eq_false, if_false]
      exact inductionHypothesis (Nat.mod_lt _ (by decide))

/-- The first bit of the first word that has one. -/
theorem FindsFirst.firstPlace
    {i : Nat}
    (finds : FindsFirst find bits)
    (inMap : i < map.length)
    (some_bit : find (map.getD i 0) ≠ 0)
    (none : ∀ j < i, find (map.getD j 0) = 0) :
    FirstPlace (map.chosen bits) (type.bits * i + find (map.getD i 0)) := by
  obtain ⟨first, inWord, isPlace, set, before⟩ := finds.found _ some_bit
  have member := (BitmapOf.mem_chosen inMap inWord).mpr set
  refine .inr ⟨type.bits * i + first, ⟨member, fun n chosen => ?_⟩, ?_⟩
  · obtain ⟨_, hasBit⟩ := finds.find_ne_zero chosen
    have notEarlier : i ≤ n / type.bits := by
      by_contra earlier
      exact hasBit (none _ (Nat.not_le.mp earlier))
    have parts := Nat.div_add_mod n type.bits
    rcases Nat.lt_or_eq_of_le notEarlier with later | same
    · have room := Nat.mul_le_mul_left type.bits later
      rw [Nat.mul_succ] at room
      omega
    · have notBefore : first ≤ n % type.bits := by
        by_contra less
        have clear := before _ (Nat.not_le.mp less)
        rw [same, chosen.2] at clear
        cases clear
      rw [← same] at parts
      omega
  · rw [isPlace, Nat.add_assoc]

/-- The search for the first bit is right unless it has to count to 2^32. -/
theorem FindsFirst.search_iff
    (finds : FindsFirst find bits) :
    (∃ turns pos,
        BitmapOf.searchFirst find map turns 0 = some pos ∧
          FirstPlace (map.chosen bits) pos) ↔
      map.length < 2 ^ 32 ∨ ∃ n ∈ map.chosen bits, n < type.bits * 2 ^ 32 := by
  classical
  by_cases some_bit :
      ∃ i, i < map.length ∧ i < 2 ^ 32 ∧ find (map.getD i 0) ≠ 0
  · obtain ⟨inMap, counted, hasBit⟩ := Nat.find_spec some_bit
    generalize isFirst : Nat.find some_bit = i at inMap counted hasBit
    have none : ∀ j < i, find (map.getD j 0) = 0 := by
      intro j less
      have notFirst := Nat.find_min some_bit (isFirst ▸ less)
      by_contra earlier
      exact notFirst ⟨less.trans inMap, less.trans counted, earlier⟩
    refine iff_of_true
      ⟨1 + i, _, ?_, finds.firstPlace inMap hasBit none⟩ (.inr ?_)
    · rw [searchFirst_reach inMap.le counted none, BitmapOf.searchFirst,
        if_pos inMap]
      exact if_pos hasBit
    · obtain ⟨first, inWord, _, set, _⟩ := finds.found _ hasBit
      refine ⟨_, (BitmapOf.mem_chosen inMap inWord).mpr set, ?_⟩
      have room := Nat.mul_le_mul_left type.bits (Nat.succ_le_of_lt counted)
      rw [Nat.mul_succ] at room
      omega
  · have none :
        ∀ j, j < map.length → j < 2 ^ 32 → find (map.getD j 0) = 0 := by
      intro j inMap counted
      by_contra hasBit
      exact some_bit ⟨j, inMap, counted, hasBit⟩
    have notLow : ¬ ∃ n ∈ map.chosen bits, n < type.bits * 2 ^ 32 := by
      rintro ⟨n, chosen, low⟩
      obtain ⟨inMap, hasBit⟩ := finds.find_ne_zero chosen
      exact hasBit (none _ inMap (Nat.div_lt_of_lt_mul low))
    rw [or_iff_left notLow]
    constructor
    · rintro ⟨turns, pos, returned, _⟩
      by_contra long
      have stuck :=
        searchFirst_stuck (Nat.not_lt.mp long)
          (fun j counted =>
            none j (Nat.lt_of_lt_of_le counted (Nat.not_lt.mp long)) counted)
          (by decide : 0 < 2 ^ 32) turns
      rw [stuck] at returned
      cases returned
    · intro short
      have all : ∀ j < map.length, find (map.getD j 0) = 0 :=
        fun j inMap => none j inMap (inMap.trans short)
      refine ⟨1 + map.length, 0, ?_, .inl ⟨?_, rfl⟩⟩
      · rw [searchFirst_reach le_rfl short all, BitmapOf.searchFirst,
          if_neg (lt_irrefl _)]
      · refine eq_empty_of_forall_notMem fun n chosen => ?_
        obtain ⟨inMap, hasBit⟩ := finds.find_ne_zero chosen
        exact hasBit (all _ inMap)

/-! ## The last bit -/

/-- The index of a turn, as long as it is not negative. -/
theorem index_eq
    {len top i : Nat}
    (isTop : top = (len - 1) % 2 ^ 32)
    (small : top < 2 ^ 31)
    (inMap : i < len)
    (inside : i ≤ top) :
    (BitVec.ofNat 32 (len - i - 1)).toInt = ((top - i : Nat) : Int) := by
  have value : (len - i - 1) % 2 ^ 32 = top - i := by omega
  rw [BitVec.toInt_eq_toNat_cond, BitVec.toNat_ofNat, value, if_pos (by omega)]

/-- Behind the first word the index is negative. -/
theorem index_negative
    {len top : Nat}
    (isTop : top = (len - 1) % 2 ^ 32)
    (inMap : top + 1 < len) :
    (BitVec.ofNat 32 (len - (top + 1) - 1)).toInt < 0 := by
  have value : (len - (top + 1) - 1) % 2 ^ 32 = 2 ^ 32 - 1 := by omega
  rw [BitVec.toInt_eq_toNat_cond, BitVec.toNat_ofNat, value]
  decide

/-- From a number of words that is taken for negative no word is found. -/
theorem searchLast_negative
    {top : Nat}
    (isTop : top = (map.length - 1) % 2 ^ 32)
    (big : 2 ^ 31 ≤ top)
    (turns : Nat) :
    BitmapOf.searchLast find map turns 0 = .none := by
  cases turns with
  | zero => rfl
  | succ turns =>
      have inMap : 0 < map.length := by
        by_contra empty
        omega
      have negative : (BitVec.ofNat 32 (map.length - 0 - 1)).toInt < 0 := by
        rw [Nat.sub_zero, BitVec.toInt_eq_toNat_cond, BitVec.toNat_ofNat,
          ← isTop, if_neg (by omega)]
        omega
      rw [BitmapOf.searchLast, if_pos inMap]
      exact if_pos negative

variable {top : Nat}

/-- A turn at a word without a bit goes on to the word in front. -/
theorem searchLast_step
    {i : Nat}
    (isTop : top = (map.length - 1) % 2 ^ 32)
    (small : top < 2 ^ 31)
    (inMap : i < map.length)
    (inside : i ≤ top)
    (turns : Nat) :
    BitmapOf.searchLast find map (turns + 1) i =
      if find (map.getD (top - i) 0) ≠ 0 then
        some (type.bits * (top - i) + find (map.getD (top - i) 0))
      else
        BitmapOf.searchLast find map turns (i + 1) := by
  have index := index_eq isTop small inMap inside
  rw [BitmapOf.searchLast, if_pos inMap, index]
  simp only [Int.toNat_natCast, Nat.mod_eq_of_lt (show i + 1 < 2 ^ 32 by omega)]
  exact if_neg (by omega)

/-- Over words without a bit the search goes on. -/
theorem searchLast_reach
    {i : Nat}
    (isTop : top = (map.length - 1) % 2 ^ 32)
    (small : top < 2 ^ 31)
    (inMap : i ≤ map.length)
    (inside : i ≤ top + 1)
    (none : ∀ j < i, find (map.getD (top - j) 0) = 0)
    (turns : Nat) :
    BitmapOf.searchLast find map (turns + i) 0 =
      BitmapOf.searchLast find map turns i := by
  induction i generalizing turns with
  | zero => rfl
  | succ i inductionHypothesis =>
      have before :=
        inductionHypothesis (Nat.le_of_succ_le inMap)
          (Nat.le_of_succ_le inside)
          (fun j less => none j (Nat.lt_succ_of_lt less)) (turns + 1)
      rw [Nat.add_right_comm] at before
      rw [← Nat.add_assoc, before,
        searchLast_step isTop small (Nat.lt_of_succ_le inMap)
          (Nat.le_of_succ_le_succ inside)]
      exact if_neg (not_not_intro (none i i.lt_succ_self))

/-- What is returned is a place in one of the words, or there are no others. -/
theorem searchLast_returned
    {turns i pos : Nat}
    (isTop : top = (map.length - 1) % 2 ^ 32)
    (small : top < 2 ^ 31)
    (inside : i ≤ top + 1)
    (returned : BitmapOf.searchLast find map turns i = some pos) :
    (pos = 0 ∧ map.length ≤ top + 1) ∨
      ∃ j ≤ top, find (map.getD j 0) ≠ 0 ∧
        pos = type.bits * j + find (map.getD j 0) := by
  induction turns generalizing i with
  | zero => cases returned
  | succ turns inductionHypothesis =>
      by_cases inMap : i < map.length
      · rcases Nat.lt_or_eq_of_le inside with before | rfl
        · have notAfter := Nat.le_of_lt_succ before
          rw [searchLast_step isTop small inMap notAfter] at returned
          split at returned
          case isTrue some_bit =>
            cases returned
            exact .inr ⟨top - i, Nat.sub_le top i, some_bit, rfl⟩
          case isFalse =>
            exact inductionHypothesis before returned
        · rw [BitmapOf.searchLast, if_pos inMap] at returned
          have negative := index_negative isTop inMap
          simp only [negative, if_true] at returned
          cases returned
      · rw [BitmapOf.searchLast, if_neg inMap] at returned
        cases returned
        exact .inl ⟨rfl, (Nat.not_lt.mp inMap).trans inside⟩

/-- The last bit of the last word that has one. -/
theorem FindsLast.lastPlace
    {j : Nat}
    (finds : FindsLast find bits)
    (inMap : j < map.length)
    (some_bit : find (map.getD j 0) ≠ 0)
    (none :
      ∀ k, j < k → k < map.length → find (map.getD k 0) = 0) :
    LastPlace (map.chosen bits) (type.bits * j + find (map.getD j 0)) := by
  obtain ⟨last, inWord, isPlace, set, behind⟩ := finds.found _ some_bit
  have member := (BitmapOf.mem_chosen inMap inWord).mpr set
  refine .inr ⟨type.bits * j + last, ⟨member, fun n chosen => ?_⟩, ?_⟩
  · obtain ⟨inside, hasBit⟩ := finds.find_ne_zero chosen
    have notLater : n / type.bits ≤ j := by
      by_contra later
      exact hasBit (none _ (Nat.not_le.mp later) inside)
    have parts := Nat.div_add_mod n type.bits
    have place : n % type.bits < type.bits := Nat.mod_lt n bits_pos
    rcases Nat.lt_or_eq_of_le notLater with earlier | same
    · have room := Nat.mul_le_mul_left type.bits (Nat.succ_le_of_lt earlier)
      rw [Nat.mul_succ] at room
      omega
    · have notBehind : n % type.bits ≤ last := by
        by_contra more
        have clear := behind _ place (Nat.not_le.mp more)
        rw [← same, chosen.2] at clear
        cases clear
      rw [same] at parts
      omega
  · rw [isPlace, Nat.add_assoc]

/--
The bits that are looked for are where the search for the last one looks: the
signed index begins at the last word, or at one with all of them up to it.
-/
def Reaches
    (map : BitmapOf type)
    (set : Set Nat) : Prop :=
  map.length ≤ 2 ^ 31 ∨
    (map.length - 1) % 2 ^ 32 < 2 ^ 31 ∧ set.Nonempty ∧
      ∀ n ∈ set, n < type.bits * ((map.length - 1) % 2 ^ 32 + 1)

/-- A place that is right is one that the index reaches. -/
theorem FindsLast.reaches_of_right
    {turns pos : Nat}
    (finds : FindsLast find bits)
    (returned : BitmapOf.searchLast find map turns 0 = some pos)
    (right : LastPlace (map.chosen bits) pos) :
    Reaches map (map.chosen bits) := by
  by_cases short : map.length ≤ 2 ^ 31
  · exact .inl short
  · generalize isTop : (map.length - 1) % 2 ^ 32 = top
    have small : top < 2 ^ 31 := by
      by_contra big
      rw [searchLast_negative isTop.symm (Nat.not_lt.mp big)] at returned
      cases returned
    rcases searchLast_returned isTop.symm small (Nat.zero_le _) returned with
      ⟨_, inside⟩ | ⟨j, inside, some_bit, isPos⟩
    · omega
    · obtain ⟨last, inWord, isPlace, _⟩ := finds.found _ some_bit
      rcases right with ⟨_, zero⟩ | ⟨n, greatest, isNext⟩
      · omega
      · have room : type.bits * j + type.bits ≤ type.bits * (top + 1) := by
          rw [← Nat.mul_succ]
          exact Nat.mul_le_mul_left _ (Nat.succ_le_succ inside)
        have below : n < type.bits * (top + 1) := by omega
        refine .inr ⟨isTop ▸ small, ⟨n, greatest.1⟩, fun m chosen => ?_⟩
        rw [isTop]
        exact (greatest.2 chosen).trans_lt below

/-- Where the index reaches the bits the search is right. -/
theorem FindsLast.right_of_reaches
    (finds : FindsLast find bits)
    (reaches : Reaches map (map.chosen bits)) :
    ∃ turns pos,
      BitmapOf.searchLast find map turns 0 = some pos ∧
        LastPlace (map.chosen bits) pos := by
  classical
  rcases Nat.eq_zero_or_pos map.length with empty | some_word
  · refine ⟨1, 0, ?_, .inl ⟨?_, rfl⟩⟩
    · rw [BitmapOf.searchLast, if_neg (by omega)]
    · refine eq_empty_of_forall_notMem fun n chosen => ?_
      have inMap := (finds.find_ne_zero chosen).1
      rw [empty] at inMap
      cases inMap
  · rw [Reaches] at reaches
    generalize isTop : (map.length - 1) % 2 ^ 32 = top at reaches
    have small : top < 2 ^ 31 := by
      rcases reaches with short | ⟨small, _⟩
      · omega
      · exact small
    have topIn : top < map.length := by omega
    have beyond : ∀ n ∈ map.chosen bits, n / type.bits ≤ top := by
      intro n chosen
      rcases reaches with short | ⟨_, _, below⟩
      · have inMap := (finds.find_ne_zero chosen).1
        omega
      · exact Nat.le_of_lt_succ (Nat.div_lt_of_lt_mul (below n chosen))
    by_cases some_bit : ∃ j ≤ top, find (map.getD j 0) ≠ 0
    · obtain ⟨k, kInside, kBit⟩ := some_bit
      have hasBit :=
        Nat.findGreatest_spec (P := fun j => find (map.getD j 0) ≠ 0) kInside
          kBit
      have jInside :=
        Nat.findGreatest_le (P := fun j => find (map.getD j 0) ≠ 0) top
      have greater : ∀ k,
          Nat.findGreatest (fun j => find (map.getD j 0) ≠ 0) top < k →
            k ≤ top → find (map.getD k 0) = 0 :=
        fun k less inside =>
          not_not.mp (Nat.findGreatest_is_greatest less inside)
      generalize Nat.findGreatest (fun j => find (map.getD j 0) ≠ 0) top = j
        at hasBit jInside greater
      have back : top - (top - j) = j := Nat.sub_sub_self jInside
      refine ⟨1 + (top - j), _, ?_,
        finds.lastPlace (jInside.trans_lt topIn) hasBit fun k less inMap => ?_⟩
      · rw [searchLast_reach isTop.symm small (by omega) (by omega)
          (fun i less => greater _ (by omega) (Nat.sub_le top i)),
          searchLast_step isTop.symm small (by omega) (Nat.sub_le top j), back]
        exact if_pos hasBit
      · by_contra later
        obtain ⟨last, inWord, _, set, _⟩ := finds.found _ later
        have inside := beyond _ ((BitmapOf.mem_chosen inMap inWord).mpr set)
        rw [Nat.mul_add_div bits_pos, Nat.div_eq_of_lt inWord,
          Nat.add_zero] at inside
        exact later (greater k less inside)
    · have none : ∀ j ≤ top, find (map.getD j 0) = 0 := by
        intro j inside
        by_contra hasBit
        exact some_bit ⟨j, inside, hasBit⟩
      have noBit : map.chosen bits = ∅ := by
        refine eq_empty_of_forall_notMem fun n chosen => ?_
        exact (finds.find_ne_zero chosen).2 (none _ (beyond n chosen))
      have isLength : map.length = top + 1 := by
        rcases reaches with short | ⟨_, nonempty, _⟩
        · omega
        · rw [noBit] at nonempty
          exact absurd nonempty not_nonempty_empty
      refine ⟨1 + (top + 1), 0, ?_, .inl ⟨noBit, rfl⟩⟩
      rw [searchLast_reach isTop.symm small isLength.ge le_rfl
        (fun i _ => none _ (Nat.sub_le top i)), BitmapOf.searchLast,
        if_neg (by omega)]

/-- The search for the last bit is right exactly when its index reaches the bits. -/
theorem FindsLast.search_iff
    (finds : FindsLast find bits) :
    (∃ turns pos,
        BitmapOf.searchLast find map turns 0 = some pos ∧
          LastPlace (map.chosen bits) pos) ↔
      Reaches map (map.chosen bits) :=
  ⟨fun ⟨_, _, returned, right⟩ => finds.reaches_of_right returned right,
    finds.right_of_reaches⟩

end Search

/-! ## Bitmaps after any operations -/

section Claims

variable {Name : Type*}
variable [DecidableEq Name]
variable {type : WordType}

/--
The set after any operations on bits of the bitmaps is that of the operations on
sets, and `bitops_isset` tells its members.  The searches are right exactly when
their counters reach the bits.
-/
theorem bitmaps_right_iff
    {maps : Name → BitmapOf type}
    {ops : List (BitmapOp Name)}
    (inRange : ∀ op ∈ ops, op.InRange fun name => (maps name).size)
    (name : Name) :
    let map := runBitmapOps ops maps name
    map.size = (maps name).size ∧
      map.members =
        bitmapOpsOnSets (fun name => (maps name).size) ops
          (fun name => (maps name).members) name ∧
      (∀ n, map.isset n = true ↔ n ∈ map.members) ∧
      ((∃ turns pos, map.ffs turns = some pos ∧ FirstPlace map.members pos) ↔
        map.length < 2 ^ 32 ∨ ∃ n ∈ map.members, n < type.bits * 2 ^ 32) ∧
      ((∃ turns pos, map.ffc turns = some pos ∧
          FirstPlace map.nonmembers pos) ↔
        map.length < 2 ^ 32 ∨ ∃ n ∈ map.nonmembers, n < type.bits * 2 ^ 32) ∧
      ((∃ turns pos, map.fls turns = some pos ∧ LastPlace map.members pos) ↔
        Reaches map map.members) ∧
      ((∃ turns pos, map.flc turns = some pos ∧
          LastPlace map.nonmembers pos) ↔
        Reaches map map.nonmembers) := by
  intro map
  refine ⟨size_runBitmapOps name,
    congrFun (members_runBitmapOps inRange) name, fun n => ?_, ?_⟩
  · rw [BitmapOf.isset_eq]
    rfl
  · rw [← map.chosen_set, ← map.chosen_clear]
    exact
      ⟨findsFirst_set.search_iff, findsFirst_clear.search_iff,
        findsLast_set.search_iff, findsLast_clear.search_iff⟩

end Claims

/-- Two words of 16 bits, in which two bits are set, one after the other. -/
theorem bitmaps_right_twoWords :
    ∃ turns pos,
      (runBitmapOps [.set 17 (), .set 3 ()]
          (fun _ => ([0, 0] : BitmapOf .uint16)) ()).fls turns = some pos ∧
        LastPlace
          (bitmapOpsOnSets (fun _ => 32) [.set 17 (), .set 3 ()]
            (fun _ => BitmapOf.members ([0, 0] : BitmapOf .uint16)) ())
          pos := by
  have inRange :
      ∀ op ∈ ([.set 17 (), .set 3 ()] : List (BitmapOp Unit)),
        op.InRange fun _ => BitmapOf.size ([0, 0] : BitmapOf .uint16) := by
    simp [BitmapOp.InRange, BitmapOf.size, WordType.bits]
  obtain ⟨_, members, _, _, _, last, _⟩ := bitmaps_right_iff inRange ()
  rw [members] at last
  exact last.mpr (.inl (by decide))

/-- In 2^31 + 1 words that are filled the last bit is not found. -/
theorem bitmaps_not_right :
    (∀ turns,
        (runBitmapOps [.fill ()]
          (fun _ => (List.replicate (2 ^ 31 + 1) 0 : BitmapOf .uint16))
            ()).fls turns = none) ∧
      ¬ ∃ turns pos,
        (runBitmapOps [.fill ()]
            (fun _ => (List.replicate (2 ^ 31 + 1) 0 : BitmapOf .uint16))
              ()).fls turns = some pos ∧
          LastPlace
            (runBitmapOps [.fill ()]
              (fun _ => (List.replicate (2 ^ 31 + 1) 0 : BitmapOf .uint16))
                ()).members pos := by
  generalize isMap :
    runBitmapOps [.fill ()]
      (fun _ => (List.replicate (2 ^ 31 + 1) 0 : BitmapOf .uint16)) () = map
  have length : map.length = 2 ^ 31 + 1 := by
    rw [← isMap]
    simp only [runBitmapOps, BitmapOp.run, Function.update_self, BitmapOf.fill,
      List.length_map, List.length_replicate]
  have top : (2 ^ 31 : Nat) = (map.length - 1) % 2 ^ 32 := by
    rw [length]
    decide
  have none : ∀ turns, map.fls turns = .none :=
    searchLast_negative top le_rfl
  refine ⟨none, ?_⟩
  rintro ⟨turns, pos, returned, _⟩
  rw [none turns] at returned
  cases returned

end RiscvWorkshop.Bitops
