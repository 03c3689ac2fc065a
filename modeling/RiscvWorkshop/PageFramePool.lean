import Mathlib
import RiscvWorkshop.BuddyTiling
import RiscvWorkshop.PageFrameBuddy

namespace RiscvWorkshop.Pfdb

open BuddyTiling

/-!
# The pool functions keep the tiling

The free blocks of all orders, the blocks handed out, and at most one block
that a running function holds in its hand tile the unreserved pages of the
region.  Each step of the split and merge loops moves one block between these
groups.
-/

/-- The blocks linked on per-order page lists. -/
def blocksOf (orders : Nat) (pageList : Nat → List Nat) : List Block :=
  (List.range orders).flatMap fun order =>
    (pageList order).map fun start => ⟨start, order⟩

theorem mem_blocksOf
    {orders : Nat}
    {pageList : Nat → List Nat}
    {block : Block} :
    block ∈ blocksOf orders pageList ↔
      block.order < orders ∧ block.start ∈ pageList block.order := by
  simp only [blocksOf, List.mem_flatMap, List.mem_range, List.mem_map]
  constructor
  · rintro ⟨order, bound, start, member, rfl⟩
    exact ⟨bound, member⟩
  · rintro ⟨bound, member⟩
    exact ⟨block.order, bound, block.start, member, rfl⟩

/-- One list of the family contributes its blocks, in whatever position. -/
theorem blocksOf_update_perm
    {orders order : Nat}
    (bound : order < orders)
    (pageList : Nat → List Nat)
    (newList : List Nat) :
    (blocksOf orders (Function.update pageList order newList)).Perm
      ((newList.map fun start => ⟨start, order⟩) ++
        blocksOf orders (Function.update pageList order [])) := by
  induction orders with
  | zero =>
      omega
  | succ orders inductionHypothesis =>
      simp only [blocksOf, List.range_succ, List.flatMap_append,
        List.flatMap_cons, List.flatMap_nil, List.append_nil]
      by_cases last : order = orders
      · subst last
        have untouched : ∀ replacement : List Nat,
            (List.range order).flatMap
                (fun other =>
                  (Function.update pageList order replacement other).map
                    fun start => (⟨start, other⟩ : Block)) =
              blocksOf order pageList := by
          intro replacement
          refine List.flatMap_congr fun other member => ?_
          have different : other ≠ order :=
            (List.mem_range.mp member).ne
          rw [Function.update_of_ne different]
        simp only [untouched, Function.update_self, List.map_nil,
          List.append_nil]
        exact List.perm_append_comm
      · have earlier := inductionHypothesis (by omega)
        have different : orders ≠ order := Ne.symm last
        simp only [Function.update_of_ne different]
        refine (earlier.append_right _).trans ?_
        rw [List.append_assoc]
        rfl

theorem blocksOf_append_perm
    {orders order : Nat}
    (bound : order < orders)
    (pageList : Nat → List Nat)
    (start : Nat) :
    (blocksOf orders
        (Function.update pageList order (pageList order ++ [start]))).Perm
      (⟨start, order⟩ :: blocksOf orders pageList) := by
  have before := blocksOf_update_perm bound pageList (pageList order)
  rw [Function.update_eq_self] at before
  refine (blocksOf_update_perm bound pageList _).trans ?_
  rw [List.map_append, List.append_assoc]
  refine List.perm_middle.trans (.cons _ ?_)
  simpa using before.symm

theorem blocksOf_erase_perm
    {orders order start : Nat}
    (bound : order < orders)
    (pageList : Nat → List Nat)
    (member : start ∈ pageList order) :
    (blocksOf orders pageList).Perm
      (⟨start, order⟩ ::
        blocksOf orders
          (Function.update pageList order ((pageList order).erase start))) := by
  have before := blocksOf_update_perm bound pageList (pageList order)
  rw [Function.update_eq_self] at before
  refine before.trans ?_
  refine (((List.perm_cons_erase member).map _).append_right _).trans ?_
  exact .cons _
    (blocksOf_update_perm bound pageList ((pageList order).erase start)).symm

/-- The blocks on the page lists of a pool. -/
def PageBuddy.freeBlocks (pool : PageBuddy) : List Block :=
  blocksOf pagePoolMaxOrder pool.pageList

/-- A page of the region that is not reserved. -/
def PageBuddy.Unreserved (pool : PageBuddy) (idx : Nat) : Prop :=
  (pool.array idx).reserved = false

instance (pool : PageBuddy) : DecidablePred pool.Unreserved :=
  fun _ => inferInstanceAs (Decidable (_ = _))

/--
The invariant of a pool.  `live` are the blocks handed out, `hand` are the
blocks that the running function has taken off both groups.
-/
structure PoolSound
    (pool : PageBuddy)
    (hand live : List Block) : Prop where
  tiles :
    Tiles (hand ++ (pool.freeBlocks ++ live)) pool.nrPages pool.Unreserved
  counts :
    ∀ order < pagePoolMaxOrder,
      pool.freeNr order = (pool.pageList order).length
  freeHead :
    ∀ block ∈ pool.freeBlocks,
      (pool.array block.start).order = block.order ∧
        (pool.array block.start).used = false
  liveHead :
    ∀ block ∈ live,
      (pool.array block.start).order = block.order ∧
        (pool.array block.start).used = true
  orders : ∀ block ∈ hand ++ live, block.order < pagePoolMaxOrder
  usedHead :
    ∀ idx < pool.nrPages, pool.Unreserved idx →
      (pool.array idx).used = true → ∃ block ∈ hand ++ live, block.start = idx
  countedHead :
    ∀ idx, (pool.array idx).usecnt ≠ 0 → ∃ block ∈ live, block.start = idx

/-- What no pool function of a running region changes. -/
structure SameRegion (before after : PageBuddy) : Prop where
  nrPages : after.nrPages = before.nrPages
  availablePages : after.availablePages = before.availablePages
  reserved :
    ∀ idx, (after.array idx).reserved = (before.array idx).reserved
  pfn : ∀ idx, (after.array idx).pfn = (before.array idx).pfn
  mapcnt : ∀ idx, (after.array idx).mapcnt = (before.array idx).mapcnt
  reservedOrder :
    ∀ idx, (before.array idx).reserved = true →
      (after.array idx).order = (before.array idx).order

namespace SameRegion

theorem refl (pool : PageBuddy) : SameRegion pool pool :=
  ⟨rfl, rfl, fun _ => rfl, fun _ => rfl, fun _ => rfl, fun _ _ => rfl⟩

theorem trans
    {first second third : PageBuddy}
    (earlier : SameRegion first second)
    (later : SameRegion second third) :
    SameRegion first third where
  nrPages := later.nrPages.trans earlier.nrPages
  availablePages := later.availablePages.trans earlier.availablePages
  reserved idx := (later.reserved idx).trans (earlier.reserved idx)
  pfn idx := (later.pfn idx).trans (earlier.pfn idx)
  mapcnt idx := (later.mapcnt idx).trans (earlier.mapcnt idx)
  reservedOrder idx isReserved :=
    (later.reservedOrder idx ((earlier.reserved idx).trans isReserved)).trans
      (earlier.reservedOrder idx isReserved)

/-- A rewrite that keeps these fields of the rewritten frame keeps the region. -/
theorem modify
    (pool : PageBuddy)
    (idx : Nat)
    (change : PageFrame → PageFrame)
    (keeps :
      ∀ pf, (change pf).reserved = pf.reserved ∧
        (change pf).pfn = pf.pfn ∧ (change pf).mapcnt = pf.mapcnt ∧
        (change pf).order = pf.order) :
    SameRegion pool (pool.modify idx change) := by
  refine ⟨rfl, rfl, ?_, ?_, ?_, ?_⟩ <;> intro other <;>
    by_cases same : other = idx <;>
    simp [same, keeps]

theorem queueAdd
    (pool : PageBuddy)
    (order idx : Nat) :
    SameRegion pool (pool.queueAdd order idx) :=
  ⟨rfl, rfl, fun _ => rfl, fun _ => rfl, fun _ => rfl, fun _ _ => rfl⟩

theorem queueDel
    (pool : PageBuddy)
    (order idx : Nat) :
    SameRegion pool (pool.queueDel order idx) :=
  ⟨rfl, rfl, fun _ => rfl, fun _ => rfl, fun _ => rfl, fun _ _ => rfl⟩

theorem queueGetTop
    (pool : PageBuddy)
    (order : Nat)
    (rest : List Nat) :
    SameRegion pool (pool.queueGetTop order rest) :=
  ⟨rfl, rfl, fun _ => rfl, fun _ => rfl, fun _ => rfl, fun _ _ => rfl⟩

theorem setOrder
    {pool : PageBuddy}
    {idx : Nat}
    (unreserved : pool.Unreserved idx)
    (order : Nat) :
    SameRegion pool (pool.setOrder idx order) := by
  refine ⟨rfl, rfl, ?_, ?_, ?_, ?_⟩ <;> intro other <;>
    by_cases same : other = idx <;>
    simp_all [PageBuddy.setOrder, PageBuddy.Unreserved]

theorem setUsecnt
    (pool : PageBuddy)
    (idx : Nat)
    (usecnt : Int32) :
    SameRegion pool (pool.modify idx fun pf => { pf with usecnt }) :=
  modify pool idx _ fun _ => ⟨rfl, rfl, rfl, rfl⟩

end SameRegion

/-- What the bookkeeping of usages and clusters leaves alone. -/
structure SameBlocks (before after : PageBuddy) : Prop
    extends SameRegion before after where
  pageList : after.pageList = before.pageList
  freeNr : after.freeNr = before.freeNr
  order : ∀ idx, (after.array idx).order = (before.array idx).order
  used : ∀ idx, (after.array idx).used = (before.array idx).used
  usecnt : ∀ idx, (after.array idx).usecnt = (before.array idx).usecnt

namespace SameBlocks

theorem modifyCluster
    (pool : PageBuddy)
    (idx order : Nat)
    (clustered : Bool)
    (headp : Option Nat) :
    SameBlocks pool
      (pool.modifyCluster idx order fun pf => { pf with clustered, headp }) := by
  have order : ∀ other,
      ((pool.modifyCluster idx order fun pf =>
        { pf with clustered, headp }).array other).order =
          (pool.array other).order := by
    intro other
    simp only [PageBuddy.modifyCluster]
    split <;> rfl
  refine ⟨⟨rfl, rfl, ?_, ?_, ?_, fun other _ => order other⟩, rfl, rfl,
    order, ?_, ?_⟩ <;> intro other <;>
    simp only [PageBuddy.modifyCluster] <;> split <;> rfl

theorem modify
    (pool : PageBuddy)
    (idx : Nat)
    (change : PageFrame → PageFrame)
    (keepsRegion :
      ∀ pf, (change pf).reserved = pf.reserved ∧
        (change pf).pfn = pf.pfn ∧ (change pf).mapcnt = pf.mapcnt ∧
        (change pf).order = pf.order)
    (keepsBlock :
      ∀ pf, (change pf).used = pf.used ∧ (change pf).usecnt = pf.usecnt) :
    SameBlocks pool (pool.modify idx change) := by
  refine ⟨.modify pool idx change keepsRegion, rfl, rfl, ?_, ?_, ?_⟩ <;>
    intro other <;> by_cases same : other = idx <;>
    simp [same, keepsRegion, keepsBlock]

theorem setupClusteredPages
    (pool : PageBuddy)
    (idx : Nat) :
    SameBlocks pool (setupClusteredPages pool idx) := by
  unfold Pfdb.setupClusteredPages
  split
  · exact modify pool idx _ (fun _ => ⟨rfl, rfl, rfl, rfl⟩) fun _ => ⟨rfl, rfl⟩
  · exact modifyCluster pool idx _ _ _

theorem clearClusteredPages
    (pool : PageBuddy)
    (idx : Nat) :
    SameBlocks pool (clearClusteredPages pool idx) :=
  modifyCluster pool idx _ _ _

theorem markPageUsage
    (pool : PageBuddy)
    (idx : Nat)
    (usage : PageUsage) :
    SameBlocks pool (markPageUsage pool idx usage) := by
  obtain ⟨⟨_, _, reserved, pfn, mapcnt, reservedOrder⟩, _, _, order, used,
      usecnt⟩ :=
    modify pool idx
      (fun pf =>
        { pf with usecase := Function.update pf.usecase usage true })
      (fun _ => ⟨rfl, rfl, rfl, rfl⟩) fun _ => ⟨rfl, rfl⟩
  exact ⟨⟨rfl, rfl, reserved, pfn, mapcnt, reservedOrder⟩, rfl, rfl, order,
    used, usecnt⟩

theorem unmarkPageUsage
    (pool : PageBuddy)
    (idx : Nat) :
    SameBlocks pool (unmarkPageUsage pool idx) := by
  obtain ⟨⟨_, _, reserved, pfn, mapcnt, reservedOrder⟩, _, _, order, used,
      usecnt⟩ :=
    modify pool idx
      (fun pf => { pf with usecase := fun _ => false })
      (fun _ => ⟨rfl, rfl, rfl, rfl⟩) fun _ => ⟨rfl, rfl⟩
  exact ⟨⟨rfl, rfl, reserved, pfn, mapcnt, reservedOrder⟩, rfl, rfl, order,
    used, usecnt⟩

end SameBlocks

namespace PoolSound

variable {pool after : PageBuddy}
variable {hand live : List Block}

/--
A step that leaves the lists alone keeps the invariant when it leaves the
heads of the listed and live blocks alone.
-/
theorem reframe
    (sound : PoolSound pool hand live)
    (region : SameRegion pool after)
    (pageList : after.pageList = pool.pageList)
    (freeNr : after.freeNr = pool.freeNr)
    (usecnt : ∀ idx, (after.array idx).usecnt = (pool.array idx).usecnt)
    (used :
      ∀ idx, (after.array idx).used = true → (pool.array idx).used = true)
    (heads :
      ∀ block ∈ pool.freeBlocks ++ live,
        (after.array block.start).order = (pool.array block.start).order ∧
          (after.array block.start).used = (pool.array block.start).used) :
    PoolSound after hand live where
  tiles := by
    rw [PageBuddy.freeBlocks, pageList, region.nrPages]
    refine sound.tiles.congr fun page _ => ?_
    simp only [PageBuddy.Unreserved, region.reserved]
  counts order bound := by
    rw [freeNr, pageList]
    exact sound.counts order bound
  freeHead block member := by
    rw [PageBuddy.freeBlocks, pageList] at member
    obtain ⟨sameOrder, sameUsed⟩ :=
      heads block (List.mem_append_left _ member)
    rw [sameOrder, sameUsed]
    exact sound.freeHead block member
  liveHead block member := by
    obtain ⟨sameOrder, sameUsed⟩ :=
      heads block (List.mem_append_right _ member)
    rw [sameOrder, sameUsed]
    exact sound.liveHead block member
  orders := sound.orders
  usedHead idx bound unreserved isUsed := by
    rw [region.nrPages] at bound
    simp only [PageBuddy.Unreserved, region.reserved] at unreserved
    exact sound.usedHead idx bound unreserved (used idx isUsed)
  countedHead idx := by
    rw [usecnt]
    exact sound.countedHead idx

theorem of_sameBlocks
    (sound : PoolSound pool hand live)
    (same : SameBlocks pool after) :
    PoolSound after hand live :=
  sound.reframe same.toSameRegion same.pageList same.freeNr same.usecnt
    (fun idx => by rw [same.used]; exact id)
    fun block _ => ⟨same.order block.start, same.used block.start⟩

/-- No listed or live block starts at a page of the block in hand. -/
theorem start_ne_of_hand
    {taken block : Block}
    {idx : Nat}
    (sound : PoolSound pool (taken :: hand) live)
    (member : block ∈ pool.freeBlocks ++ live)
    (inHand : taken.Contains idx) :
    block.start ≠ idx := by
  have apart :=
    (List.pairwise_cons.mp sound.tiles.apart).1 block
      (List.mem_append_right _ member)
  rintro rfl
  exact apart.not_both inHand block.contains_start

/-- The pages of the block in hand are not reserved. -/
theorem unreserved_of_hand
    {taken : Block}
    {idx : Nat}
    (sound : PoolSound pool (taken :: hand) live)
    (inHand : taken.Contains idx) :
    pool.Unreserved idx :=
  sound.tiles.available_of_member (by simp) inHand

/-- The order of a page of the block in hand is free to be written. -/
theorem setOrder
    {taken : Block}
    {idx : Nat}
    (sound : PoolSound pool (taken :: hand) live)
    (inHand : taken.Contains idx)
    (order : Nat) :
    PoolSound (pool.setOrder idx order) (taken :: hand) live := by
  refine sound.reframe (.setOrder (sound.unreserved_of_hand inHand) order)
    rfl rfl ?_ ?_ ?_
  · intro other
    by_cases same : other = idx <;>
      simp [PageBuddy.setOrder, same]
  · intro other
    by_cases same : other = idx <;>
      simp [PageBuddy.setOrder, same]
  · intro block member
    have different := sound.start_ne_of_hand member inHand
    simp [PageBuddy.setOrder, different]

/-- Clear the in-use flag of the block in hand. -/
theorem clearUsed
    {taken : Block}
    {idx : Nat}
    (sound : PoolSound pool (taken :: hand) live)
    (inHand : taken.Contains idx) :
    PoolSound (pool.modify idx fun pf => { pf with used := false })
      (taken :: hand) live := by
  refine sound.reframe (.modify pool idx _ fun _ => ⟨rfl, rfl, rfl, rfl⟩)
    rfl rfl ?_ ?_ ?_
  · intro other
    by_cases same : other = idx <;>
      simp [same]
  · intro other
    by_cases same : other = idx <;>
      simp [same]
  · intro block member
    have different := sound.start_ne_of_hand member inHand
    simp [different]

/-- Pop the top of a page list into the hand. -/
theorem take
    {order idx : Nat}
    {rest : List Nat}
    (sound : PoolSound pool [] live)
    (bound : order < pagePoolMaxOrder)
    (listShape : pool.pageList order = idx :: rest) :
    PoolSound (pool.queueGetTop order rest) [⟨idx, order⟩] live := by
  have moved :
      pool.freeBlocks.Perm
        (⟨idx, order⟩ :: (pool.queueGetTop order rest).freeBlocks) := by
    have perm := blocksOf_erase_perm bound pool.pageList
      (show idx ∈ pool.pageList order by simp [listShape])
    rwa [listShape, List.erase_cons_head] at perm
  refine ⟨?_, ?_, ?_, sound.liveHead, ?_, ?_, sound.countedHead⟩
  · exact sound.tiles.perm (moved.append_right live)
  · intro other otherBound
    have before := sound.counts other otherBound
    by_cases same : other = order
    · subst same
      simp only [PageBuddy.queueGetTop, Function.update_self]
      rw [before, listShape, List.length_cons]
      push_cast
      ring
    · simpa [PageBuddy.queueGetTop, same] using before
  · intro block member
    exact sound.freeHead block
      (moved.mem_iff.mpr (List.mem_cons_of_mem _ member))
  · simpa [bound] using sound.orders
  · intro other otherBound unreserved isUsed
    obtain ⟨block, member, sameStart⟩ :=
      sound.usedHead other otherBound unreserved isUsed
    exact ⟨block, List.mem_cons_of_mem _ member, sameStart⟩

/-- Link a block from the hand at the end of its page list. -/
theorem put
    {order idx : Nat}
    (sound : PoolSound pool (⟨idx, order⟩ :: hand) live)
    (sameOrder : (pool.array idx).order = order)
    (notUsed : (pool.array idx).used = false) :
    PoolSound (pool.queueAdd order idx) hand live := by
  have bound : order < pagePoolMaxOrder :=
    sound.orders ⟨idx, order⟩ (by simp)
  have moved :
      (pool.queueAdd order idx).freeBlocks.Perm
        (⟨idx, order⟩ :: pool.freeBlocks) :=
    blocksOf_append_perm bound pool.pageList idx
  refine ⟨?_, ?_, ?_, sound.liveHead, ?_, ?_, sound.countedHead⟩
  · refine sound.tiles.perm ?_
    refine List.Perm.trans ?_ ((moved.symm.append_right live).append_left hand)
    exact List.perm_middle.symm
  · intro other otherBound
    have before := sound.counts other otherBound
    by_cases same : other = order
    · subst same
      simp [PageBuddy.queueAdd, before]
    · simpa [PageBuddy.queueAdd, same] using before
  · intro block member
    rcases List.mem_cons.mp (moved.mem_iff.mp member) with rfl | listed
    · exact ⟨sameOrder, notUsed⟩
    · exact sound.freeHead block listed
  · intro block member
    exact sound.orders block (List.mem_cons_of_mem _ member)
  · intro other otherBound unreserved isUsed
    obtain ⟨block, member, rfl⟩ :=
      sound.usedHead other otherBound unreserved isUsed
    rcases List.mem_cons.mp member with rfl | others
    · simp [PageBuddy.queueAdd, notUsed] at isUsed
    · exact ⟨block, others, rfl⟩

/-- The order of the blocks in hand does not matter. -/
theorem permHand
    {otherHand : List Block}
    (sound : PoolSound pool hand live)
    (permuted : hand.Perm otherHand) :
    PoolSound pool otherHand live where
  tiles := sound.tiles.perm (permuted.append_right _)
  counts := sound.counts
  freeHead := sound.freeHead
  liveHead := sound.liveHead
  orders block member :=
    sound.orders block ((permuted.append_right live).mem_iff.mpr member)
  usedHead idx bound unreserved isUsed := by
    obtain ⟨block, member, sameStart⟩ :=
      sound.usedHead idx bound unreserved isUsed
    exact ⟨block, (permuted.append_right live).mem_iff.mp member, sameStart⟩
  countedHead := sound.countedHead

/-- Only heads of blocks carry the in-use flag. -/
theorem used_eq_false_of_hand
    {taken : Block}
    {idx : Nat}
    (sound : PoolSound pool [taken] live)
    (inHand : taken.Contains idx)
    (notStart : taken.start ≠ idx) :
    (pool.array idx).used = false := by
  rw [Bool.eq_false_iff]
  intro isUsed
  have inside := sound.tiles.inside taken (by simp)
  obtain ⟨block, member, sameStart⟩ :=
    sound.usedHead idx (by simp only [Block.Contains] at inHand; omega)
      (sound.unreserved_of_hand inHand) isUsed
  rcases List.mem_append.mp member with inHands | inLive
  · rw [List.mem_singleton.mp inHands] at sameStart
    exact notStart sameStart
  · exact sound.start_ne_of_hand (List.mem_append_right _ inLive) inHand
      sameStart

/-- Cut the block in hand into halves. -/
theorem splitHand
    {order idx : Nat}
    (sound : PoolSound pool (⟨idx, order + 1⟩ :: hand) live) :
    PoolSound pool (⟨idx, order⟩ :: ⟨idx + 2 ^ order, order⟩ :: hand)
      live where
  tiles := sound.tiles.split
  counts := sound.counts
  freeHead := sound.freeHead
  liveHead := sound.liveHead
  orders := by
    have before := sound.orders
    simp only [List.cons_append, List.mem_cons, forall_eq_or_imp] at before ⊢
    exact ⟨by omega, by omega, before.2⟩
  usedHead idx bound unreserved isUsed := by
    have before := sound.usedHead idx bound unreserved isUsed
    simp only [List.cons_append, List.mem_cons, exists_eq_or_imp] at before ⊢
    exact before.imp_right Or.inr
  countedHead := sound.countedHead

/-- Join the halves in hand. -/
theorem mergeHand
    {order idx : Nat}
    (sound :
      PoolSound pool (⟨idx, order⟩ :: ⟨idx + 2 ^ order, order⟩ :: hand) live)
    (whole : 2 ^ (order + 1) ∣ idx)
    (bound : order + 1 < pagePoolMaxOrder)
    (upperNotUsed : (pool.array (idx + 2 ^ order)).used = false) :
    PoolSound pool (⟨idx, order + 1⟩ :: hand) live where
  tiles := sound.tiles.merge whole
  counts := sound.counts
  freeHead := sound.freeHead
  liveHead := sound.liveHead
  orders := by
    have before := sound.orders
    simp only [List.cons_append, List.mem_cons, forall_eq_or_imp] at before ⊢
    exact ⟨bound, before.2.2⟩
  usedHead idx bound unreserved isUsed := by
    have before := sound.usedHead idx bound unreserved isUsed
    simp only [List.cons_append, List.mem_cons, exists_eq_or_imp] at before ⊢
    refine before.imp_right fun others => others.resolve_left fun upper => ?_
    rw [← upper, upperNotUsed] at isUsed
    exact Bool.false_ne_true isUsed
  countedHead := sound.countedHead

/-- Take a listed block of known order off its list, wherever it stands there. -/
theorem unlink
    {order idx : Nat}
    (sound : PoolSound pool hand live)
    (listed : (⟨idx, order⟩ : Block) ∈ pool.freeBlocks) :
    PoolSound (pool.queueDel order idx) (⟨idx, order⟩ :: hand) live := by
  obtain ⟨bound, inList⟩ := mem_blocksOf.mp listed
  simp only at bound inList
  -- a page starts at most one block, so only the list of its order links it
  have elsewhere : ∀ other < pagePoolMaxOrder, other ≠ order →
      idx ∉ pool.pageList other := by
    intro other otherBound different inOther
    have otherListed : (⟨idx, other⟩ : Block) ∈ pool.freeBlocks :=
      mem_blocksOf.mpr ⟨otherBound, inOther⟩
    have same :=
      sound.tiles.eq_of_contains (by simp [otherListed]) (by simp [listed])
        (Block.contains_start ⟨idx, other⟩) (Block.contains_start ⟨idx, order⟩)
    exact different (congrArg Block.order same)
  have lists : ∀ other < pagePoolMaxOrder,
      (pool.queueDel order idx).pageList other =
        Function.update pool.pageList order
          ((pool.pageList order).erase idx) other := by
    intro other otherBound
    by_cases same : other = order
    · subst same
      simp [PageBuddy.queueDel]
    · simp [PageBuddy.queueDel, same,
        List.erase_of_not_mem (elsewhere other otherBound same)]
  have freeShape :
      (pool.queueDel order idx).freeBlocks =
        blocksOf pagePoolMaxOrder
          (Function.update pool.pageList order
            ((pool.pageList order).erase idx)) := by
    refine List.flatMap_congr fun other member => ?_
    rw [lists other (List.mem_range.mp member)]
  have moved :
      pool.freeBlocks.Perm
        (⟨idx, order⟩ :: (pool.queueDel order idx).freeBlocks) := by
    rw [freeShape]
    exact blocksOf_erase_perm bound pool.pageList inList
  refine ⟨?_, ?_, ?_, sound.liveHead, ?_, ?_, sound.countedHead⟩
  · refine sound.tiles.perm ?_
    exact ((moved.append_right live).append_left hand).trans List.perm_middle
  · intro other otherBound
    have before := sound.counts other otherBound
    rw [lists other otherBound]
    by_cases same : other = order
    · subst same
      have positive := List.length_pos_of_mem inList
      simp only [PageBuddy.queueDel, Function.update_self, before,
        List.length_erase_of_mem inList]
      omega
    · simpa [PageBuddy.queueDel, same] using before
  · intro block member
    exact sound.freeHead block
      (moved.mem_iff.mpr (List.mem_cons_of_mem _ member))
  · simpa [bound] using sound.orders
  · intro other otherBound unreserved isUsed
    obtain ⟨block, member, sameStart⟩ :=
      sound.usedHead other otherBound unreserved isUsed
    exact ⟨block, List.mem_cons_of_mem _ member, sameStart⟩

/-- A page that looks like a free buddy is the head of a listed block. -/
theorem buddy_listed
    {order idx : Nat}
    (sound : PoolSound pool [⟨idx, order⟩] live)
    (inRegion : buddyOf idx order < pool.nrPages)
    (sameOrder : (pool.array (buddyOf idx order)).order = order)
    (freed : (pool.array (buddyOf idx order)).notFreed = false) :
    (⟨buddyOf idx order, order⟩ : Block) ∈ pool.freeBlocks := by
  simp only [PageFrame.notFreed, Bool.or_eq_false_iff] at freed
  obtain ⟨notUsed, unreserved⟩ := freed
  obtain ⟨block, member, contains⟩ :=
    sound.tiles.exists_member inRegion unreserved
  obtain ⟨starts, _, different⟩ :=
    sound.tiles.starts_at_buddy
      (show (⟨idx, order⟩ : Block) ∈ _ by simp) member contains
  simp only [List.cons_append, List.nil_append, List.mem_cons, different,
    false_or, List.mem_append] at member
  rcases member with listed | allocated
  · have heads := sound.freeHead block listed
    rw [starts, sameOrder] at heads
    have shape : block = ⟨buddyOf idx order, order⟩ := by
      cases block
      simp_all
    exact shape ▸ listed
  · have heads := sound.liveHead block allocated
    rw [starts, notUsed] at heads
    exact absurd heads.2 Bool.false_ne_true

/-- One merging round: take the free buddy and join it with the block in hand. -/
theorem mergeBuddy
    {order idx : Nat}
    (sound : PoolSound pool [⟨idx, order⟩] live)
    (bound : order + 1 < pagePoolMaxOrder)
    (listed : (⟨buddyOf idx order, order⟩ : Block) ∈ pool.freeBlocks)
    (notUsed : (pool.array idx).used = false) :
    PoolSound (pool.queueDel order (buddyOf idx order))
        [⟨maskOrder (order + 1) idx, order + 1⟩] live ∧
      ((pool.queueDel order (buddyOf idx order)).array
        (maskOrder (order + 1) idx)).used = false := by
  have aligned : 2 ^ order ∣ idx :=
    sound.tiles.aligned ⟨idx, order⟩ (by simp)
  have buddyNotUsed := (sound.freeHead _ listed).2
  have both := sound.unlink listed
  have lower : maskOrder (order + 1) idx = min idx (buddyOf idx order) :=
    lower_half_eq aligned
  rcases buddyOf_eq aligned with ⟨above, shape⟩ | ⟨above, shape⟩
  · have lowerShape : maskOrder (order + 1) idx = idx := by omega
    rw [lowerShape]
    rw [shape] at both buddyNotUsed ⊢
    exact ⟨(both.permHand (.swap ..)).mergeHand above bound buddyNotUsed,
      notUsed⟩
  · have lowerShape : maskOrder (order + 1) idx = buddyOf idx order := by omega
    rw [lowerShape]
    generalize buddyOf idx order = buddy at *
    subst shape
    exact ⟨both.mergeHand above bound notUsed, buddyNotUsed⟩

/-- Hand out the block in hand. -/
theorem allocate
    {order idx : Nat}
    (sound : PoolSound pool [⟨idx, order⟩] live)
    (sameOrder : (pool.array idx).order = order) :
    PoolSound
      (pool.modify idx fun pf => { pf with used := true, usecnt := 1 })
      [] (⟨idx, order⟩ :: live) := by
  have region :
      SameRegion pool
        (pool.modify idx fun pf => { pf with used := true, usecnt := 1 }) :=
    .modify pool idx _ fun _ => ⟨rfl, rfl, rfl, rfl⟩
  have elsewhere : ∀ block ∈ pool.freeBlocks ++ live, block.start ≠ idx :=
    fun block member =>
      sound.start_ne_of_hand member (Block.contains_start ⟨idx, order⟩)
  refine ⟨?_, sound.counts, ?_, ?_, ?_, ?_, ?_⟩
  · refine Tiles.congr (sound.tiles.perm ?_) fun page _ => ?_
    · show (⟨idx, order⟩ :: (pool.freeBlocks ++ live)).Perm
          (pool.freeBlocks ++ ⟨idx, order⟩ :: live)
      exact List.perm_middle.symm
    · simp only [PageBuddy.Unreserved, region.reserved]
  · intro block member
    have different := elsewhere block (List.mem_append_left _ member)
    simpa [different] using sound.freeHead block member
  · intro block member
    rcases List.mem_cons.mp member with rfl | older
    · simp [sameOrder]
    · have different := elsewhere block (List.mem_append_right _ older)
      simpa [different] using sound.liveHead block older
  · simpa using sound.orders
  · intro other bound unreserved isUsed
    by_cases same : other = idx
    · exact ⟨⟨idx, order⟩, by simp, same.symm⟩
    · simp only [PageBuddy.Unreserved, region.reserved] at unreserved
      rw [PageBuddy.modify_array_of_ne same] at isUsed
      simpa using sound.usedHead other bound unreserved isUsed
  · intro other counted
    by_cases same : other = idx
    · exact ⟨⟨idx, order⟩, by simp, same.symm⟩
    · rw [PageBuddy.modify_array_of_ne same] at counted
      obtain ⟨block, member, sameStart⟩ := sound.countedHead other counted
      exact ⟨block, List.mem_cons_of_mem _ member, sameStart⟩

/-- Take a handed-out block back into the hand when its use count drops to 0. -/
theorem release
    {block : Block}
    (sound : PoolSound pool [] live)
    (member : block ∈ live) :
    PoolSound (pool.modify block.start fun pf => { pf with usecnt := 0 })
      [block] (live.erase block) := by
  have region :
      SameRegion pool
        (pool.modify block.start fun pf => { pf with usecnt := 0 }) :=
    .setUsecnt pool block.start 0
  have sameOrder : ∀ idx,
      ((pool.modify block.start fun pf => { pf with usecnt := 0 }).array
        idx).order = (pool.array idx).order := by
    intro idx
    by_cases same : idx = block.start <;> simp [same]
  have sameUsed : ∀ idx,
      ((pool.modify block.start fun pf => { pf with usecnt := 0 }).array
        idx).used = (pool.array idx).used := by
    intro idx
    by_cases same : idx = block.start <;> simp [same]
  have moved : live.Perm (block :: live.erase block) :=
    List.perm_cons_erase member
  refine ⟨?_, sound.counts, ?_, ?_, ?_, ?_, ?_⟩
  · refine Tiles.congr (sound.tiles.perm ?_) fun page _ => ?_
    · exact (moved.append_left _).trans List.perm_middle
    · simp only [PageBuddy.Unreserved, region.reserved]
  · intro other listed
    rw [sameOrder, sameUsed]
    exact sound.freeHead other listed
  · intro other older
    rw [sameOrder, sameUsed]
    exact sound.liveHead other (List.mem_of_mem_erase older)
  · intro other inHands
    exact sound.orders other (moved.mem_iff.mpr inHands)
  · intro idx bound unreserved isUsed
    simp only [PageBuddy.Unreserved, region.reserved] at unreserved
    rw [sameUsed] at isUsed
    obtain ⟨other, older, sameStart⟩ :=
      sound.usedHead idx bound unreserved isUsed
    exact ⟨other, moved.mem_iff.mp older, sameStart⟩
  · intro idx counted
    by_cases same : idx = block.start
    · simp [same] at counted
    · rw [PageBuddy.modify_array_of_ne same] at counted
      obtain ⟨other, older, sameStart⟩ := sound.countedHead idx counted
      have different : other ≠ block := by
        rintro rfl
        exact same sameStart.symm
      exact ⟨other, (List.mem_erase_of_ne different).mpr older, sameStart⟩

end PoolSound

/-! ## The loops -/

/-- Splitting down to the requested order keeps the lower half in hand. -/
theorem adjustPageOrderLoop_sound
    {requestOrder idx : Nat}
    {live : List Block} :
    ∀ {curOrder : Nat} {pool : PageBuddy},
      requestOrder ≤ curOrder →
      PoolSound pool [⟨idx, curOrder⟩] live →
      (pool.array idx).order = curOrder →
      (pool.array idx).used = false →
      ∃ after,
        adjustPageOrderLoop requestOrder idx curOrder pool = some after ∧
          PoolSound after [⟨idx, requestOrder⟩] live ∧
          (after.array idx).order = requestOrder ∧
          SameRegion pool after := by
  intro curOrder
  induction curOrder with
  | zero =>
      intro pool bound sound sameOrder _
      obtain rfl : requestOrder = 0 := by omega
      exact ⟨pool, rfl, sound, sameOrder, .refl pool⟩
  | succ curOrder inductionHypothesis =>
      intro pool bound sound sameOrder notUsed
      by_cases larger : requestOrder < curOrder + 1
      · have whole : 2 ^ (curOrder + 1) ∣ idx :=
          sound.tiles.aligned ⟨idx, curOrder + 1⟩ (by simp)
        have buddyShape : idx ^^^ (1 <<< curOrder) = idx + 2 ^ curOrder :=
          buddyOf_of_dvd whole
        have positive := Nat.two_pow_pos curOrder
        have inside := sound.tiles.inside ⟨idx, curOrder + 1⟩ (by simp)
        simp only [Block.size_mk, pow_succ] at inside
        have upperNotUsed :
            (pool.array (idx + 2 ^ curOrder)).used = false :=
          sound.used_eq_false_of_hand
            (by
              simp only [Block.Contains, Block.size_mk, pow_succ]
              omega)
            (by simp only; omega)
        -- cut, link the upper half, and continue with the lower one
        have halves := sound.splitHand.permHand (.swap ..)
        have upperSet :=
          halves.setOrder (Block.contains_start _) curOrder
        have linked := upperSet.put (by simp [PageBuddy.setOrder])
          (by simpa [PageBuddy.setOrder] using upperNotUsed)
        have lowerSet := linked.setOrder (Block.contains_start _) curOrder
        obtain ⟨after, executed, afterSound, afterOrder, afterRegion⟩ :=
          inductionHypothesis (by omega) lowerSet
            (by simp [PageBuddy.setOrder])
            (by
              have different : idx ≠ idx + 2 ^ curOrder := by omega
              simpa [PageBuddy.setOrder, PageBuddy.queueAdd, different]
                using notUsed)
        refine ⟨after, ?_, afterSound, afterOrder, ?_⟩
        · have inRegion : idx + 2 ^ curOrder < pool.nrPages := by omega
          simp only [adjustPageOrderLoop, if_pos larger, buddyShape,
            if_pos inRegion]
          exact executed
        · have first := SameRegion.setOrder
            (halves.unreserved_of_hand (Block.contains_start _)) curOrder
          have second := SameRegion.setOrder
            (linked.unreserved_of_hand (Block.contains_start _)) curOrder
          exact first.trans
            ((SameRegion.queueAdd ..).trans (second.trans afterRegion))
      · obtain rfl : requestOrder = curOrder + 1 := by omega
        refine ⟨pool, ?_, sound, sameOrder, .refl pool⟩
        simp [adjustPageOrderLoop]

/-- `adjust_page_order` never stops at its assertions. -/
theorem adjustPageOrder_sound
    {pool : PageBuddy}
    {requestOrder curOrder idx : Nat}
    {live : List Block}
    (bound : requestOrder ≤ curOrder)
    (sound : PoolSound pool [⟨idx, curOrder⟩] live)
    (sameOrder : (pool.array idx).order = curOrder)
    (notUsed : (pool.array idx).used = false) :
    ∃ after,
      adjustPageOrder pool idx requestOrder = some after ∧
        PoolSound after [⟨idx, requestOrder⟩] live ∧
        (after.array idx).order = requestOrder ∧
        SameRegion pool after := by
  obtain ⟨after, executed, afterSound, afterOrder, region⟩ :=
    adjustPageOrderLoop_sound bound sound sameOrder notUsed
  refine ⟨after, ?_, afterSound, afterOrder, region⟩
  simp [adjustPageOrder, sameOrder, executed, afterOrder]

/-- The merge loop ends with a block in hand that records its own order. -/
theorem enqueueLoop_sound
    {live : List Block} :
    ∀ {remaining order idx : Nat} {pool : PageBuddy},
      order + remaining = pagePoolMaxOrder →
      0 < remaining →
      PoolSound pool [⟨idx, order⟩] live →
      (pool.array idx).used = false →
      ∃ endIdx endOrder after,
        enqueueLoop remaining order idx pool = some (endIdx, after) ∧
          PoolSound after [⟨endIdx, endOrder⟩] live ∧
          (after.array endIdx).order = endOrder ∧
          (after.array endIdx).used = false ∧
          SameRegion pool after := by
  intro remaining
  induction remaining with
  | zero =>
      intro order idx pool _ positive
      omega
  | succ remaining inductionHypothesis =>
      intro order idx pool total _ sound notUsed
      have inRegion : idx < pool.nrPages := by
        have inside := sound.tiles.inside ⟨idx, order⟩ (by simp)
        have positive := Nat.two_pow_pos order
        simp only [Block.size_mk] at inside
        omega
      have marked := sound.setOrder (Block.contains_start _) order
      have markedOrder : ((pool.setOrder idx order).array idx).order = order := by
        simp [PageBuddy.setOrder]
      have markedUsed :
          ((pool.setOrder idx order).array idx).used = false := by
        simpa [PageBuddy.setOrder] using notUsed
      have region := SameRegion.setOrder
        (sound.unreserved_of_hand (Block.contains_start _)) order
      have stopHere :
          ∃ endIdx endOrder after,
            some (idx, pool.setOrder idx order) = some (endIdx, after) ∧
              PoolSound after [⟨endIdx, endOrder⟩] live ∧
              (after.array endIdx).order = endOrder ∧
              (after.array endIdx).used = false ∧
              SameRegion pool after :=
        ⟨idx, order, _, rfl, marked, markedOrder, markedUsed, region⟩
      rw [enqueueLoop, if_pos inRegion]
      simp only
      split_ifs with top outside otherOrder taken
      · exact stopHere
      · exact stopHere
      · exact stopHere
      · exact stopHere
      · -- the buddy is a listed block of the same order
        have sameOrder :
            ((pool.setOrder idx order).array
              (buddyOf idx order)).order = order := by
          rw [markedOrder, not_not] at otherOrder
          exact otherOrder.symm
        have listed :=
          marked.buddy_listed (not_le.mp outside) sameOrder
            (Bool.eq_false_iff.mpr taken)
        have notTop : order + 1 < pagePoolMaxOrder := by omega
        obtain ⟨merged, mergedUsed⟩ :=
          marked.mergeBuddy notTop listed markedUsed
        obtain ⟨endIdx, endOrder, after, executed, afterSound, afterOrder,
            afterUsed, afterRegion⟩ :=
          inductionHypothesis (by omega) (by omega) merged mergedUsed
        refine ⟨endIdx, endOrder, after, ?_, afterSound, afterOrder,
          afterUsed, region.trans ((SameRegion.queueDel ..).trans afterRegion)⟩
        rw [← executed]
        congr 2

/-! ## The pool functions -/

/-- `enqueue_page_to_buddy_pool` links the block in hand, merged or not. -/
theorem enqueuePageToBuddyPool_sound
    {pool : PageBuddy}
    {order idx : Nat}
    {live : List Block}
    (sound : PoolSound pool [⟨idx, order⟩] live)
    (sameOrder : (pool.array idx).order = order) :
    ∃ after,
      enqueuePageToBuddyPool pool idx = some after ∧
        PoolSound after [] live ∧
        SameRegion pool after := by
  have bound : order < pagePoolMaxOrder :=
    sound.orders ⟨idx, order⟩ (by simp)
  have aligned : 2 ^ order ∣ idx :=
    sound.tiles.aligned ⟨idx, order⟩ (by simp)
  have masked : maskOrder order idx = idx := by
    rw [maskOrder, Nat.shiftRight_eq_div_pow, Nat.shiftLeft_eq,
      Nat.div_mul_cancel aligned]
  have unmarked :=
    (sound.of_sameBlocks (.unmarkPageUsage pool idx)).clearUsed
      (Block.contains_start _)
  obtain ⟨endIdx, endOrder, merged, executed, mergedSound, mergedOrder,
      mergedUsed, mergedRegion⟩ :=
    enqueueLoop_sound
      (show order + (pagePoolMaxOrder - order) = pagePoolMaxOrder by omega)
      (by omega) unmarked (by simp)
  have endBound : endOrder < pagePoolMaxOrder :=
    mergedSound.orders ⟨endIdx, endOrder⟩ (by simp)
  have inRegion : endIdx < merged.nrPages := by
    have inside := mergedSound.tiles.inside ⟨endIdx, endOrder⟩ (by simp)
    have positive := Nat.two_pow_pos endOrder
    simp only [Block.size_mk] at inside
    omega
  have cleared := SameBlocks.clearClusteredPages merged endIdx
  have clearedOrder :
      ((clearClusteredPages merged endIdx).array endIdx).order = endOrder :=
    (cleared.order endIdx).trans mergedOrder
  refine ⟨(clearClusteredPages merged endIdx).queueAdd endOrder endIdx,
    ?_, ?_, ?_⟩
  · simp only [enqueuePageToBuddyPool, sameOrder, if_pos bound,
      if_pos masked, executed, mergedOrder, clearedOrder]
    exact if_pos ⟨inRegion, endBound⟩
  · refine (mergedSound.of_sameBlocks cleared).put clearedOrder ?_
    rw [cleared.used]
    exact mergedUsed
  · exact (SameBlocks.unmarkPageUsage pool idx).toSameRegion.trans
      ((SameRegion.modify _ idx (fun pf => { pf with used := false })
          fun _ => ⟨rfl, rfl, rfl, rfl⟩).trans
        (mergedRegion.trans
          (cleared.toSameRegion.trans (.queueAdd ..))))

/-- What one attempt to take a block of an order out of a region can do. -/
inductive Dequeued
    (pool : PageBuddy)
    (order : Nat)
    (live : List Block) :
    Except Errno Nat → PageBuddy → Prop where
  | failed
      (code : Errno) :
      Dequeued pool order live (.error code) pool
  | taken
      {idx : Nat}
      {after : PageBuddy}
      (inRegion : idx < pool.nrPages)
      (sound : PoolSound after [] (⟨idx, order⟩ :: live))
      (region : SameRegion pool after) :
      Dequeued pool order live (.ok (pool.array idx).pfn) after

/-- Handing out a block of the requested order after the split. -/
private theorem handOut
    {pool : PageBuddy}
    {order idx : Nat}
    {live : List Block}
    (sound : PoolSound pool [⟨idx, order⟩] live)
    (sameOrder : (pool.array idx).order = order)
    (usage : PageUsage) :
    PoolSound
        ((markPageUsage (setupClusteredPages pool idx) idx usage).modify idx
          fun pf => { pf with used := true, usecnt := 1 })
        [] (⟨idx, order⟩ :: live) ∧
      SameRegion pool
        ((markPageUsage (setupClusteredPages pool idx) idx usage).modify idx
          fun pf => { pf with used := true, usecnt := 1 }) := by
  have clustered := SameBlocks.setupClusteredPages pool idx
  have marked :=
    SameBlocks.markPageUsage (setupClusteredPages pool idx) idx usage
  refine ⟨?_, ?_⟩
  · refine ((sound.of_sameBlocks clustered).of_sameBlocks marked).allocate ?_
    rw [marked.order, clustered.order]
    exact sameOrder
  · exact clustered.toSameRegion.trans
      (marked.toSameRegion.trans
        (.modify _ idx _ fun _ => ⟨rfl, rfl, rfl, rfl⟩))

theorem dequeueLoop_sound
    {pool : PageBuddy}
    {order : Nat}
    {live : List Block}
    (usage : PageUsage)
    (sound : PoolSound pool [] live) :
    ∀ {remaining curOrder : Nat},
      curOrder + remaining = pagePoolMaxOrder →
      order ≤ curOrder →
      ∃ result after,
        dequeueLoop order usage remaining curOrder pool =
            some (result, after) ∧
          Dequeued pool order live result after := by
  intro remaining
  induction remaining with
  | zero =>
      intro curOrder _ _
      exact ⟨_, pool, rfl, .failed .enomem⟩
  | succ remaining inductionHypothesis =>
      intro curOrder total bound
      cases listShape : pool.pageList curOrder with
      | nil =>
          simp only [dequeueLoop, listShape]
          exact inductionHypothesis (by omega) (by omega)
      | cons idx rest =>
          have curBound : curOrder < pagePoolMaxOrder := by omega
          have listed : (⟨idx, curOrder⟩ : Block) ∈ pool.freeBlocks :=
            mem_blocksOf.mpr ⟨curBound, by simp [listShape]⟩
          obtain ⟨sameOrder, notUsed⟩ := sound.freeHead _ listed
          have inside := sound.tiles.inside ⟨idx, curOrder⟩ (by simp [listed])
          have positive := Nat.two_pow_pos curOrder
          simp only [Block.size_mk] at inside
          have popped := sound.take curBound listShape
          obtain ⟨adjusted, executed, adjustedSound, adjustedOrder,
              adjustedRegion⟩ :=
            adjustPageOrder_sound bound popped sameOrder notUsed
          obtain ⟨outSound, outRegion⟩ :=
            handOut adjustedSound adjustedOrder usage
          have region :=
            (SameRegion.queueGetTop pool curOrder rest).trans
              (adjustedRegion.trans outRegion)
          simp only [dequeueLoop, listShape, executed]
          refine ⟨_, _, rfl, ?_⟩
          rw [region.pfn]
          exact .taken (by omega) outSound region

/-- `dequeue_page_from_memory_area` never stops at an assertion. -/
theorem dequeuePageFromMemoryArea_sound
    {pool : PageBuddy}
    {live : List Block}
    (sound : PoolSound pool [] live)
    (order : Nat)
    (usage : PageUsage) :
    ∃ result after,
      dequeuePageFromMemoryArea pool order usage = some (result, after) ∧
        Dequeued pool order live result after := by
  unfold dequeuePageFromMemoryArea
  split
  · exact ⟨_, pool, rfl, .failed .einval⟩
  · exact dequeueLoop_sound usage sound (by omega) (Nat.le_refl order)

end RiscvWorkshop.Pfdb
