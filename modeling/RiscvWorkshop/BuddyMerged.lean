import Mathlib
import RiscvWorkshop.BuddyTiling

namespace RiscvWorkshop.BuddyTiling

/-!
# Tilings without mergeable buddies

Below a top order, two buddies of the same order can be merged.  A tiling in
which no such pair is left is determined by the available pages alone.
-/

namespace Block

/-- A block and its buddy are the halves of one block. -/
def buddy (block : Block) : Block :=
  ⟨buddyOf block.start block.order, block.order⟩

theorem buddy_buddy (block : Block) : block.buddy.buddy = block := by
  simp only [buddy, buddyOf, Nat.xor_assoc, Nat.xor_self, Nat.xor_zero]

/-- An aligned block that meets a larger aligned one lies inside it. -/
theorem Aligned.contains_of_shared
    {small large : Block}
    {shared page : Nat}
    (smallAligned : small.Aligned)
    (largeAligned : large.Aligned)
    (smaller : small.order ≤ large.order)
    (sharedSmall : small.Contains shared)
    (sharedLarge : large.Contains shared)
    (inSmall : small.Contains page) :
    large.Contains page := by
  rw [smallAligned.contains_iff] at sharedSmall inSmall
  rw [largeAligned.contains_iff] at sharedLarge ⊢
  have sizeShape :
      large.size = small.size * 2 ^ (large.order - small.order) := by
    rw [Block.size, Block.size, ← pow_add, Nat.add_sub_cancel' smaller]
  rw [← sharedLarge, sizeShape, ← Nat.div_div_eq_div_mul,
    ← Nat.div_div_eq_div_mul, inSmall, sharedSmall]

/-- Aligned blocks of one order that share a page are the same block. -/
theorem Aligned.eq_of_shared
    {first second : Block}
    {page : Nat}
    (firstAligned : first.Aligned)
    (secondAligned : second.Aligned)
    (sameOrder : first.order = second.order)
    (inFirst : first.Contains page)
    (inSecond : second.Contains page) :
    first = second := by
  have sameSize : first.size = second.size := by
    rw [Block.size, Block.size, sameOrder]
  rw [firstAligned.contains_iff] at inFirst
  rw [secondAligned.contains_iff] at inSecond
  have sameStart : first.start = second.start := by
    rw [← Nat.div_mul_cancel firstAligned,
      ← Nat.div_mul_cancel secondAligned, ← inFirst, ← inSecond, sameSize]
  cases first
  cases second
  simp_all

/-- The buddy of a block inside a larger aligned block lies there too. -/
theorem Aligned.contains_buddy
    {small large : Block}
    (largeAligned : large.Aligned)
    (smaller : small.order < large.order)
    (inside : large.Contains small.start) :
    large.Contains small.buddy.start := by
  rw [largeAligned.contains_iff] at inside ⊢
  have sizeShape :
      large.size =
        2 ^ (small.order + 1) * 2 ^ (large.order - (small.order + 1)) := by
    rw [Block.size, ← pow_add, Nat.add_sub_cancel' smaller]
  rw [← inside, buddy, sizeShape, ← Nat.div_div_eq_div_mul,
    ← Nat.div_div_eq_div_mul, buddyOf_div]

end Block

/-- No two listed blocks below the top order are buddies. -/
def Merged
    (top : Nat)
    (blocks : List Block) : Prop :=
  ∀ block ∈ blocks, block.order < top → block.buddy ∉ blocks

namespace Merged

variable {top pages : Nat}
variable {blocks : List Block}
variable {available : Nat → Prop}

theorem mono
    {fewer : List Block}
    (merged : Merged top blocks)
    (listed : ∀ block ∈ fewer, block ∈ blocks) :
    Merged top fewer :=
  fun block member below both =>
    merged block (listed block member) below (listed _ both)

theorem perm
    {permutedBlocks : List Block}
    (merged : Merged top blocks)
    (permuted : blocks.Perm permutedBlocks) :
    Merged top permutedBlocks :=
  merged.mono fun _ member => permuted.mem_iff.mpr member

/-- A block whose buddy is not listed may be listed. -/
theorem cons
    {block : Block}
    (merged : Merged top blocks)
    (alone : block.order < top → block.buddy ∉ block :: blocks) :
    Merged top (block :: blocks) := by
  intro other member below both
  rcases List.mem_cons.mp member with rfl | older
  · exact alone below both
  · rcases List.mem_cons.mp both with isBlock | bothOlder
    · have shape : block.buddy = other := by
        rw [← isBlock, other.buddy_buddy]
      have sameOrder : block.order = other.order := by
        rw [← isBlock]
        rfl
      exact alone (sameOrder ▸ below) (shape ▸ List.mem_cons_of_mem _ older)
    · exact merged other older below bothOlder

/--
A merged tiling has no member below the order of an available block that
overlaps it: the smallest such member would have its buddy listed.
-/
theorem not_finer
    (tiles : Tiles blocks pages available)
    (merged : Merged top blocks)
    {large : Block}
    (largeAligned : large.Aligned)
    (largeInside : large.start + large.size ≤ pages)
    (largeAvailable : ∀ page, large.Contains page → available page)
    (belowTop : large.order ≤ top) :
    ∀ {order : Nat} {block : Block},
      block ∈ blocks →
      block.order = order →
      large.Contains block.start →
      ¬ order < large.order := by
  intro order
  induction order using Nat.strong_induction_on with
  | _ order inductionHypothesis =>
      rintro block member rfl inside finer
      have buddyInside := largeAligned.contains_buddy finer inside
      have bound : block.buddy.start < pages := by
        simp only [Block.Contains] at buddyInside
        omega
      obtain ⟨other, otherMember, contains⟩ :=
        tiles.exists_member bound (largeAvailable _ buddyInside)
      obtain ⟨starts, orderLe, _⟩ :=
        tiles.starts_at_buddy member otherMember contains
      rcases orderLe.lt_or_eq with smaller | sameOrder
      · refine inductionHypothesis other.order smaller otherMember rfl ?_
          (by omega)
        rw [starts]
        exact buddyInside
      · have shape : other = block.buddy := by
          cases other
          simp_all [Block.buddy]
        exact merged block member (by omega) (shape ▸ otherMember)

/-- Two merged tilings of the same pages have the same blocks. -/
theorem unique
    {others : List Block}
    (tiles : Tiles blocks pages available)
    (merged : Merged top blocks)
    (orders : ∀ block ∈ blocks, block.order ≤ top)
    (otherTiles : Tiles others pages available)
    (otherMerged : Merged top others)
    (otherOrders : ∀ block ∈ others, block.order ≤ top)
    {block : Block}
    (member : block ∈ blocks) :
    block ∈ others := by
  have aligned := tiles.aligned block member
  have inside := tiles.inside block member
  have bound : block.start < pages := by
    have positive := block.size_pos
    omega
  obtain ⟨other, otherMember, contains⟩ :=
    otherTiles.exists_member bound
      (tiles.available_of_member member block.contains_start)
  have otherAligned := otherTiles.aligned other otherMember
  rcases Nat.lt_trichotomy block.order other.order with finer | same | coarser
  · exact absurd finer
      (not_finer tiles merged otherAligned
        (otherTiles.inside other otherMember)
        (fun _ held => otherTiles.available_of_member otherMember held)
        (otherOrders other otherMember) member rfl contains)
  · have equal :=
      aligned.eq_of_shared otherAligned same block.contains_start contains
    exact equal ▸ otherMember
  · have startInside :=
      otherAligned.contains_of_shared aligned coarser.le contains
        block.contains_start other.contains_start
    exact absurd coarser
      (not_finer otherTiles otherMerged aligned inside
        (fun _ held => tiles.available_of_member member held)
        (orders block member) otherMember rfl startInside)

end Merged

end RiscvWorkshop.BuddyTiling
