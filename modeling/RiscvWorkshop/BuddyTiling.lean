import Mathlib

namespace RiscvWorkshop.BuddyTiling

/-!
# Tilings by aligned power-of-two blocks

A binary buddy system keeps its pages in blocks that start at a multiple of
their size.  The module is about such blocks alone: a list of them tiles the
available pages when every available page lies in exactly one block and every
other page in none.  Splitting a block, merging two halves, and making one
more page available keep a tiling.
-/

/-- `2 ^ order` consecutive pages from page `start` on. -/
structure Block where
  start : Nat
  order : Nat
deriving Repr, DecidableEq

namespace Block

/-- The number of pages of a block. -/
def size (block : Block) : Nat :=
  2 ^ block.order

/-- A page belongs to a block. -/
def Contains (block : Block) (page : Nat) : Prop :=
  block.start ≤ page ∧ page < block.start + block.size

instance (block : Block) (page : Nat) : Decidable (block.Contains page) :=
  inferInstanceAs (Decidable (_ ∧ _))

/-- A block starts at a multiple of its size. -/
def Aligned (block : Block) : Prop :=
  block.size ∣ block.start

/-- Two blocks have no page in common. -/
def Apart (first second : Block) : Prop :=
  first.start + first.size ≤ second.start ∨
    second.start + second.size ≤ first.start

instance : Std.Symm Apart where
  symm _ _ apart := apart.symm

@[simp] theorem size_mk (start order : Nat) :
    (Block.mk start order).size = 2 ^ order :=
  rfl

theorem size_pos (block : Block) : 0 < block.size :=
  Nat.two_pow_pos _

theorem contains_start (block : Block) : block.Contains block.start :=
  ⟨Nat.le_refl _, Nat.lt_add_of_pos_right block.size_pos⟩

/-- Blocks that are not apart share the larger of the two starts. -/
theorem exists_common_of_not_apart
    {first second : Block}
    (overlap : ¬ first.Apart second) :
    ∃ page, first.Contains page ∧ second.Contains page := by
  have firstPos := first.size_pos
  have secondPos := second.size_pos
  simp only [Apart, not_or, not_le] at overlap
  refine ⟨max first.start second.start, ?_, ?_⟩ <;>
    simp only [Contains] <;> omega

theorem Apart.not_both
    {first second : Block}
    {page : Nat}
    (apart : first.Apart second)
    (inFirst : first.Contains page) :
    ¬ second.Contains page := by
  simp only [Apart, Contains] at *
  omega

/-- An aligned block holds the pages with the same quotient as its start. -/
theorem Aligned.contains_iff
    {block : Block}
    (aligned : block.Aligned)
    (page : Nat) :
    block.Contains page ↔ page / block.size = block.start / block.size := by
  obtain ⟨quotient, startShape⟩ := aligned
  have sizePos := block.size_pos
  have commuted := Nat.mul_comm block.size quotient
  rw [startShape, Nat.mul_div_cancel_left _ sizePos,
    Nat.div_eq_iff sizePos]
  simp only [Contains, startShape]
  constructor <;> rintro ⟨lower, upper⟩ <;> constructor <;> omega

end Block

/-! ## Buddies -/

/-- The block of the same order that completes a block to one order higher. -/
def buddyOf (start order : Nat) : Nat :=
  start ^^^ (1 <<< order)

/-- The buddy is the other half of the enclosing block of the next order. -/
theorem buddyOf_eq
    {start order : Nat}
    (aligned : 2 ^ order ∣ start) :
    (2 ^ (order + 1) ∣ start ∧ buddyOf start order = start + 2 ^ order) ∨
      (2 ^ (order + 1) ∣ buddyOf start order ∧
        start = buddyOf start order + 2 ^ order) := by
  obtain ⟨quotient, rfl⟩ := aligned
  have shifted :
      buddyOf (2 ^ order * quotient) order =
        2 ^ order * (quotient ^^^ 1) := by
    rw [buddyOf, Nat.mul_comm, ← Nat.shiftLeft_eq,
      ← Nat.shiftLeft_xor_distrib, Nat.shiftLeft_eq, Nat.mul_comm]
  rw [shifted, pow_succ]
  rcases Nat.even_or_odd quotient with even | odd
  · left
    rw [Nat.xor_one_of_even even]
    obtain ⟨half, rfl⟩ := even
    exact ⟨⟨half, by ring⟩, by ring⟩
  · right
    rw [Nat.xor_one_of_odd odd]
    obtain ⟨half, rfl⟩ := odd
    exact ⟨⟨half, by rw [Nat.add_sub_cancel]; ring⟩,
      by rw [Nat.add_sub_cancel]; ring⟩

/-- The buddy of the lower half is the upper half. -/
theorem buddyOf_of_dvd
    {start order : Nat}
    (whole : 2 ^ (order + 1) ∣ start) :
    buddyOf start order = start + 2 ^ order := by
  have aligned : 2 ^ order ∣ start :=
    (pow_dvd_pow 2 (Nat.le_succ order)).trans whole
  rcases buddyOf_eq aligned with ⟨_, shape⟩ | ⟨above, shape⟩
  · exact shape
  · have divides := (Nat.dvd_add_right above).mp (shape ▸ whole)
    have tooLarge := Nat.le_of_dvd (Nat.two_pow_pos order) divides
    have positive := Nat.two_pow_pos order
    rw [pow_succ] at tooLarge
    omega

/-- A block and its buddy lie in the same block of the next order. -/
theorem buddyOf_div
    (start order : Nat) :
    buddyOf start order / 2 ^ (order + 1) = start / 2 ^ (order + 1) := by
  have vanishes : (1 <<< order) / 2 ^ (order + 1) = 0 := by
    rw [Nat.one_shiftLeft]
    exact Nat.div_eq_of_lt (Nat.pow_lt_pow_right (by omega) (by omega))
  rw [buddyOf, Nat.xor_div_two_pow, vanishes, Nat.xor_zero]

/-- Clearing the low bits of a block's start yields the lower of the two buddies. -/
theorem lower_half_eq
    {start order : Nat}
    (aligned : 2 ^ order ∣ start) :
    (start >>> (order + 1)) <<< (order + 1) =
      min start (buddyOf start order) := by
  rw [Nat.shiftRight_eq_div_pow, Nat.shiftLeft_eq]
  rcases buddyOf_eq aligned with ⟨above, buddyShape⟩ | ⟨above, startShape⟩
  · rw [Nat.div_mul_cancel above, buddyShape]
    omega
  · rw [← buddyOf_div, Nat.div_mul_cancel above]
    omega

/-- The number of listed blocks that hold a page. -/
def cover (blocks : List Block) (page : Nat) : Nat :=
  blocks.countP fun block => decide (block.Contains page)

@[simp] theorem cover_cons
    (block : Block)
    (blocks : List Block)
    (page : Nat) :
    cover (block :: blocks) page =
      cover blocks page + if block.Contains page then 1 else 0 := by
  simp [cover, List.countP_cons]

theorem cover_perm
    {first second : List Block}
    (permuted : first.Perm second)
    (page : Nat) :
    cover first page = cover second page :=
  permuted.countP_eq _

theorem one_le_cover
    {blocks : List Block}
    {block : Block}
    {page : Nat}
    (member : block ∈ blocks)
    (contains : block.Contains page) :
    1 ≤ cover blocks page :=
  List.countP_pos_iff.mpr ⟨block, member, by simpa using contains⟩

/-- The two halves of a block cover the same pages as the block. -/
theorem cover_halves
    (start order : Nat)
    (rest : List Block)
    (page : Nat) :
    cover (⟨start, order⟩ :: ⟨start + 2 ^ order, order⟩ :: rest) page =
      cover (⟨start, order + 1⟩ :: rest) page := by
  rw [cover_cons, cover_cons, cover_cons]
  by_cases lower : (Block.mk start order).Contains page <;>
    by_cases upper : (Block.mk (start + 2 ^ order) order).Contains page <;>
    by_cases whole : (Block.mk start (order + 1)).Contains page <;>
    simp only [lower, upper, whole, if_true, if_false] <;>
    simp only [Block.Contains, Block.size_mk, pow_succ] at lower upper whole <;>
    omega

/-- Blocks none of which covers a page twice are pairwise apart. -/
theorem pairwise_apart_of_cover
    {blocks : List Block}
    (atMostOnce : ∀ page, cover blocks page ≤ 1) :
    blocks.Pairwise Block.Apart := by
  induction blocks with
  | nil =>
      exact .nil
  | cons head rest inductionHypothesis =>
      refine .cons ?_ (inductionHypothesis fun page => ?_)
      · intro other member
        by_contra overlap
        obtain ⟨page, inHead, inOther⟩ :=
          Block.exists_common_of_not_apart overlap
        have onceInRest := one_le_cover member inOther
        have onceInAll := atMostOnce page
        rw [cover_cons, if_pos inHead] at onceInAll
        omega
      · have once := atMostOnce page
        rw [cover_cons] at once
        omega

/-! ## Tilings -/

/--
The blocks are aligned, stay below `pages`, and cover each available page once
and no other page.
-/
structure Tiles
    (blocks : List Block)
    (pages : Nat)
    (available : Nat → Prop) : Prop where
  aligned : ∀ block ∈ blocks, block.Aligned
  inside : ∀ block ∈ blocks, block.start + block.size ≤ pages
  once : ∀ page < pages, available page → cover blocks page = 1
  never : ∀ page < pages, ¬ available page → cover blocks page = 0

namespace Tiles

variable {blocks : List Block}
variable {pages : Nat}
variable {available : Nat → Prop}

theorem perm
    {permutedBlocks : List Block}
    (tiles : Tiles blocks pages available)
    (permuted : blocks.Perm permutedBlocks) :
    Tiles permutedBlocks pages available where
  aligned block member :=
    tiles.aligned block (permuted.mem_iff.mpr member)
  inside block member :=
    tiles.inside block (permuted.mem_iff.mpr member)
  once page bound isAvailable := by
    rw [← cover_perm permuted]
    exact tiles.once page bound isAvailable
  never page bound notAvailable := by
    rw [← cover_perm permuted]
    exact tiles.never page bound notAvailable

theorem congr
    {otherAvailable : Nat → Prop}
    (tiles : Tiles blocks pages available)
    (same : ∀ page < pages, available page ↔ otherAvailable page) :
    Tiles blocks pages otherAvailable where
  aligned := tiles.aligned
  inside := tiles.inside
  once page bound isAvailable :=
    tiles.once page bound ((same page bound).mpr isAvailable)
  never page bound notAvailable :=
    tiles.never page bound fun isAvailable =>
      notAvailable ((same page bound).mp isAvailable)

theorem cover_le_one
    (tiles : Tiles blocks pages available)
    (page : Nat) :
    cover blocks page ≤ 1 := by
  by_cases bound : page < pages
  · by_cases isAvailable : available page
    · exact (tiles.once page bound isAvailable).le
    · exact (tiles.never page bound isAvailable).trans_le (Nat.zero_le 1)
  · have outside : cover blocks page = 0 := by
      rw [cover, List.countP_eq_zero]
      intro block member contains
      have blockInside := tiles.inside block member
      obtain ⟨lower, upper⟩ := of_decide_eq_true contains
      omega
    omega

/-- The blocks of a tiling are pairwise disjoint. -/
theorem apart
    (tiles : Tiles blocks pages available) :
    blocks.Pairwise Block.Apart :=
  pairwise_apart_of_cover tiles.cover_le_one

/-- Two members that hold the same page are the same block. -/
theorem eq_of_contains
    (tiles : Tiles blocks pages available)
    {first second : Block}
    {page : Nat}
    (firstMember : first ∈ blocks)
    (secondMember : second ∈ blocks)
    (inFirst : first.Contains page)
    (inSecond : second.Contains page) :
    first = second := by
  by_contra different
  exact (tiles.apart.forall firstMember secondMember different).not_both
    inFirst inSecond

/-- Every available page lies in a member. -/
theorem exists_member
    (tiles : Tiles blocks pages available)
    {page : Nat}
    (bound : page < pages)
    (isAvailable : available page) :
    ∃ block ∈ blocks, block.Contains page := by
  have covered : 0 < cover blocks page := by
    rw [tiles.once page bound isAvailable]
    exact Nat.one_pos
  obtain ⟨block, member, contains⟩ := List.countP_pos_iff.mp covered
  exact ⟨block, member, by simpa using contains⟩

/-- The pages of a member are available. -/
theorem available_of_member
    (tiles : Tiles blocks pages available)
    {block : Block}
    {page : Nat}
    (member : block ∈ blocks)
    (contains : block.Contains page) :
    available page := by
  by_contra notAvailable
  have inside := tiles.inside block member
  have bound : page < pages := by
    simp only [Block.Contains] at contains
    omega
  have covered := one_le_cover member contains
  rw [tiles.never page bound notAvailable] at covered
  omega

/-- Cut the first block into its two halves. -/
theorem split
    {start order : Nat}
    {rest : List Block}
    (tiles : Tiles (⟨start, order + 1⟩ :: rest) pages available) :
    Tiles (⟨start, order⟩ :: ⟨start + 2 ^ order, order⟩ :: rest)
      pages available := by
  have whole := tiles.aligned _ (List.mem_cons_self ..)
  have wholeInside := tiles.inside _ (List.mem_cons_self ..)
  simp only [Block.Aligned, Block.size_mk] at whole wholeInside
  have half : 2 ^ order ∣ start :=
    (pow_dvd_pow 2 (Nat.le_succ order)).trans whole
  rw [pow_succ] at wholeInside
  refine ⟨?_, ?_, ?_, ?_⟩
  · simp only [List.mem_cons, forall_eq_or_imp]
    refine ⟨half, (Nat.dvd_add_right half).mpr dvd_rfl, ?_⟩
    exact fun block member =>
      tiles.aligned block (List.mem_cons_of_mem _ member)
  · simp only [List.mem_cons, forall_eq_or_imp, Block.size_mk]
    refine ⟨by omega, by omega, ?_⟩
    exact fun block member =>
      tiles.inside block (List.mem_cons_of_mem _ member)
  · intro page bound isAvailable
    rw [cover_halves, tiles.once page bound isAvailable]
  · intro page bound notAvailable
    rw [cover_halves, tiles.never page bound notAvailable]

/-- Join the two halves of an aligned block. -/
theorem merge
    {start order : Nat}
    {rest : List Block}
    (tiles :
      Tiles (⟨start, order⟩ :: ⟨start + 2 ^ order, order⟩ :: rest)
        pages available)
    (whole : 2 ^ (order + 1) ∣ start) :
    Tiles (⟨start, order + 1⟩ :: rest) pages available := by
  have upperInside := tiles.inside ⟨start + 2 ^ order, order⟩ (by simp)
  simp only [Block.size_mk] at upperInside
  refine ⟨?_, ?_, ?_, ?_⟩
  · simp only [List.mem_cons, forall_eq_or_imp]
    exact ⟨whole, fun block member => tiles.aligned block (by simp [member])⟩
  · simp only [List.mem_cons, forall_eq_or_imp, Block.size_mk, pow_succ]
    exact ⟨by omega, fun block member => tiles.inside block (by simp [member])⟩
  · intro page bound isAvailable
    rw [← cover_halves, tiles.once page bound isAvailable]
  · intro page bound notAvailable
    rw [← cover_halves, tiles.never page bound notAvailable]

/-- One more available page is a block of order zero. -/
theorem addPage
    {page : Nat}
    {nowAvailable : Nat → Prop}
    (tiles : Tiles blocks pages available)
    (bound : page < pages)
    (notYet : ¬ available page)
    (nowIff :
      ∀ other < pages,
        nowAvailable other ↔ other = page ∨ available other) :
    Tiles (⟨page, 0⟩ :: blocks) pages nowAvailable := by
  have containsIff : ∀ other,
      (Block.mk page 0).Contains other ↔ other = page := by
    intro other
    simp only [Block.Contains, Block.size_mk, pow_zero]
    omega
  refine ⟨?_, ?_, ?_, ?_⟩
  · simp only [List.mem_cons, forall_eq_or_imp]
    exact ⟨by simp [Block.Aligned, Block.size], tiles.aligned⟩
  · simp only [List.mem_cons, forall_eq_or_imp, Block.size_mk, pow_zero]
    exact ⟨bound, tiles.inside⟩
  · intro other otherBound isAvailable
    rw [cover_cons]
    rcases (nowIff other otherBound).mp isAvailable with rfl | earlier
    · rw [tiles.never other otherBound notYet,
        if_pos ((containsIff other).mpr rfl)]
    · have different : other ≠ page := by
        rintro rfl
        exact notYet earlier
      rw [tiles.once other otherBound earlier,
        if_neg (mt (containsIff other).mp different)]
  · intro other otherBound notAvailable
    rw [nowIff other otherBound, not_or] at notAvailable
    rw [cover_cons, tiles.never other otherBound notAvailable.2,
      if_neg (mt (containsIff other).mp notAvailable.1)]

/-- A block of order zero leaves together with its page. -/
theorem removePage
    {page : Nat}
    {nowAvailable : Nat → Prop}
    (tiles : Tiles (⟨page, 0⟩ :: blocks) pages available)
    (nowIff :
      ∀ other < pages,
        nowAvailable other ↔ other ≠ page ∧ available other) :
    Tiles blocks pages nowAvailable := by
  have containsPage : (Block.mk page 0).Contains page :=
    Block.contains_start ⟨page, 0⟩
  have containsIff : ∀ other,
      (Block.mk page 0).Contains other ↔ other = page := by
    intro other
    simp only [Block.Contains, Block.size_mk, pow_zero]
    omega
  refine ⟨fun block member => tiles.aligned block (by simp [member]),
    fun block member => tiles.inside block (by simp [member]), ?_, ?_⟩
  · intro other otherBound isAvailable
    obtain ⟨different, before⟩ := (nowIff other otherBound).mp isAvailable
    have covered := tiles.once other otherBound before
    rwa [cover_cons, if_neg (mt (containsIff other).mp different),
      Nat.add_zero] at covered
  · intro other otherBound notAvailable
    by_cases same : other = page
    · subst same
      have covered := tiles.cover_le_one other
      rw [cover_cons, if_pos containsPage] at covered
      omega
    · have before : ¬ available other := fun isAvailable =>
        notAvailable ((nowIff other otherBound).mpr ⟨same, isAvailable⟩)
      have covered := tiles.never other otherBound before
      rwa [cover_cons, if_neg (mt (containsIff other).mp same),
        Nat.add_zero] at covered

/-- Some blocks of a tiling tile the pages that the others leave. -/
theorem part
    {others : List Block}
    (tiles : Tiles (blocks ++ others) pages available) :
    Tiles blocks pages
      fun page => available page ∧ ∀ block ∈ others, ¬ block.Contains page := by
  have coverBoth : ∀ page,
      cover (blocks ++ others) page = cover blocks page + cover others page :=
    fun page => List.countP_append
  refine ⟨fun block member => tiles.aligned block (by simp [member]),
    fun block member => tiles.inside block (by simp [member]), ?_, ?_⟩
  · rintro page bound ⟨isAvailable, outside⟩
    have none : cover others page = 0 := by
      rw [cover, List.countP_eq_zero]
      intro block member contains
      exact outside block member (of_decide_eq_true contains)
    have both := tiles.once page bound isAvailable
    rwa [coverBoth, none, Nat.add_zero] at both
  · intro page bound notLeft
    by_cases isAvailable : available page
    · obtain ⟨block, member, contains⟩ :
          ∃ block ∈ others, block.Contains page := by
        by_contra outside
        push Not at outside
        exact notLeft ⟨isAvailable, outside⟩
      have covered := one_le_cover member contains
      have both := tiles.once page bound isAvailable
      rw [coverBoth] at both
      omega
    · have neither := tiles.never page bound isAvailable
      rw [coverBoth] at neither
      omega

/--
The member that holds the buddy of a member starts there.  A larger aligned
block around the buddy would also hold the member itself.
-/
theorem starts_at_buddy
    {hand other : Block}
    (tiles : Tiles blocks pages available)
    (handMember : hand ∈ blocks)
    (otherMember : other ∈ blocks)
    (contains : other.Contains (buddyOf hand.start hand.order)) :
    other.start = buddyOf hand.start hand.order ∧
      other.order ≤ hand.order ∧
      other ≠ hand := by
  have handAligned := tiles.aligned hand handMember
  have otherAligned := tiles.aligned other otherMember
  have different : other ≠ hand := by
    rintro rfl
    have sizePos := other.size_pos
    simp only [Block.Contains] at contains
    simp only [Block.size] at contains sizePos
    rcases buddyOf_eq handAligned with ⟨_, shape⟩ | ⟨_, shape⟩ <;> omega
  have orderLe : other.order ≤ hand.order := by
    by_contra larger
    refine different (tiles.eq_of_contains otherMember handMember
      ?_ hand.contains_start)
    -- both halves of the pair have the same quotient by the larger size
    rw [otherAligned.contains_iff] at contains ⊢
    rw [← contains]
    have sizeShape :
        other.size = 2 ^ (hand.order + 1) *
          2 ^ (other.order - (hand.order + 1)) := by
      rw [Block.size, ← pow_add]
      congr 1
      omega
    rw [sizeShape, ← Nat.div_div_eq_div_mul, ← Nat.div_div_eq_div_mul,
      buddyOf_div]
  refine ⟨?_, orderLe, different⟩
  have otherDivides : other.size ∣ buddyOf hand.start hand.order := by
    have smaller : other.size ∣ 2 ^ hand.order :=
      pow_dvd_pow 2 orderLe
    rcases buddyOf_eq handAligned with ⟨_, shape⟩ | ⟨above, _⟩
    · rw [shape]
      exact (smaller.trans handAligned).add smaller
    · exact smaller.trans ((pow_dvd_pow 2 (Nat.le_succ _)).trans above)
  obtain ⟨buddyQuotient, buddyShape⟩ := otherDivides
  obtain ⟨otherQuotient, otherShape⟩ := otherAligned
  have sameQuotient :=
    ((tiles.aligned other otherMember).contains_iff _).mp contains
  rw [buddyShape, otherShape, Nat.mul_div_cancel_left _ other.size_pos,
    Nat.mul_div_cancel_left _ other.size_pos] at sameQuotient
  rw [buddyShape, otherShape, sameQuotient]

/-- Counting page by page what blocks below `pages` cover sums their sizes. -/
theorem sum_cover
    (inside : ∀ block ∈ blocks, block.start + block.size ≤ pages) :
    ∑ page ∈ Finset.range pages, cover blocks page =
      (blocks.map Block.size).sum := by
  induction blocks with
  | nil =>
      simp [cover]
  | cons head rest inductionHypothesis =>
      have headInside := inside head (List.mem_cons_self ..)
      have headPages :
          (Finset.range pages).filter head.Contains =
            Finset.Ico head.start (head.start + head.size) := by
        ext page
        simp only [Finset.mem_filter, Finset.mem_range, Finset.mem_Ico,
          Block.Contains]
        omega
      simp only [cover_cons, Finset.sum_add_distrib, Finset.sum_boole,
        headPages, Nat.card_Ico, Nat.cast_id, List.map_cons, List.sum_cons]
      rw [inductionHypothesis fun block member =>
        inside block (List.mem_cons_of_mem _ member)]
      omega

/-- The sizes of the blocks of a tiling add up to the available pages. -/
theorem sum_sizes
    [DecidablePred available]
    (tiles : Tiles blocks pages available) :
    (blocks.map Block.size).sum =
      ((Finset.range pages).filter available).card := by
  rw [← sum_cover tiles.inside, Finset.card_filter]
  refine Finset.sum_congr rfl fun page bound => ?_
  have bound := Finset.mem_range.mp bound
  by_cases isAvailable : available page
  · rw [tiles.once page bound isAvailable, if_pos isAvailable]
  · rw [tiles.never page bound isAvailable, if_neg isAvailable]

end Tiles

end RiscvWorkshop.BuddyTiling
