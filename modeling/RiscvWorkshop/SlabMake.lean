import Mathlib
import RiscvWorkshop.SlabRelease
import RiscvWorkshop.SlabTake

namespace RiscvWorkshop.PageSlab

open Pfdb
open Kmem

/-!
# Making a slab

Pages from the pool become a slab when they have a header and a list of free
records.  While the list grows, the header and the pages are not yet those of a
slab that an object could be taken from.
-/

section Pages

variable {m after : Memory}
variable {cache : Nat → KmemCache}
variable {heap : Heap}
variable {views : List SlabView}
variable {loose : List Nat}
variable {extra : List SlabPages}
variable {pages : SlabPages}
variable {c h a : Nat}

/-- The allocator does not rely on pages without a slab. -/
theorem Placed.uses_not_extra
    (placed : Placed cache heap views loose extra)
    (prepared : Prepared cache)
    (isExtra : pages ∈ extra)
    (holds : pages.Holds a)
    {w : SlabView}
    (member : w ∈ views)
    {j : Nat}
    (bound : j < w.records.length) :
    ¬ w.Uses cache j a := by
  intro uses
  obtain ⟨u, other, too⟩ :=
    placed.owns_inside prepared member bound
      (placed.owns_of_uses prepared member bound uses)
  exact placed.extra_apart isExtra holds other too

/-- A page cluster of the pool. -/
def freshPages (kaddr order : Nat) : SlabPages where
  kaddr := kaddr
  order := order
  slabp := 0

/-- `pgif_get_free_page_cluster` gives pages that no slab has, or nothing. -/
theorem Sound.pgifGetFreePageCluster_spec
    {order : Nat}
    {result : Option Nat}
    (sound : Sound m [] views loose extra)
    (got : m.pgifGetFreePageCluster order = some (result, after)) :
    Confined (fun _ => False) m after views views loose extra ∧
      (result = none ∧ Sound after [] views loose extra ∨
        ∃ kaddr, result = some kaddr ∧ 0 < kaddr ∧
          pageSize <<< order ∣ kaddr ∧
          Sound after [] views loose (freshPages kaddr order :: extra)) := by
  obtain ⟨prepared, placed, queued⟩ := sound
  rw [List.nil_append] at placed
  rw [Memory.pgifGetFreePageCluster] at got
  split at got
  · cases got
  · obtain ⟨rfl, rfl⟩ := Prod.mk.inj (Option.some.inj got)
    exact ⟨.of_eq rfl rfl rfl rfl rfl rfl, .inl ⟨rfl, prepared, placed, queued⟩⟩
  · next kaddr supply _ =>
    dsimp only at got
    split at got
    · next fresh =>
      obtain ⟨rfl, rfl⟩ := Prod.mk.inj (Option.some.inj got)
      obtain ⟨positive, aligned, apart⟩ := fresh
      refine ⟨.of_eq rfl rfl rfl rfl rfl rfl,
        .inr ⟨kaddr, rfl, positive, aligned, prepared, ?_, queued⟩⟩
      refine placed.repage rfl (fun _ _ => rfl) rfl ?_ ?_
      · exact placed.pages.cons (freshPages kaddr order)
      · exact List.pairwise_cons.mpr ⟨apart, placed.apart⟩
    · cases got

/-- `init_slab_info` marks the pages with the header. -/
theorem Placed.initSlabInfo
    (placed : Placed cache heap views loose (pages :: extra))
    (other : h ∉ views.map SlabView.header) :
    Placed cache (heap.initSlabInfo c h pages.kaddr) views loose
      ({ pages with slabp := h } :: extra) := by
  have here : pages ∈ heap.pages :=
    placed.pages.mem_iff.mpr List.mem_cons_self
  have once := List.nodup_cons.mp placed.pages_nodup
  have others : ∀ different ∈ extra ++ views.map (SlabView.pages cache),
      (if different.kaddr = pages.kaddr then { different with slabp := h }
        else different) = different := by
    intro different there
    refine if_neg fun same => once.1 ?_
    have too : pages.Holds different.kaddr := same ▸ pages.holds_kaddr
    rw [placed.pages_unique here
      (placed.pages.mem_iff.mpr (List.mem_cons_of_mem _ there)) too
      different.holds_kaddr]
    exact there
  refine placed.repage rfl (fun v member => ?_) rfl ?_ ?_
  · refine Function.update_of_ne ?_ ..
    exact fun same => other (same ▸ List.mem_map_of_mem member)
  · refine (placed.pages.map _).trans (.of_eq ?_)
    rw [List.cons_append, List.map_cons, if_pos rfl,
      List.map_congr_left others, List.map_id'', List.cons_append]
    exact fun _ => rfl
  · refine List.pairwise_map.mpr (placed.apart.imp fun {p q} apart => ?_)
    split_ifs <;> exact apart

end Pages

/-! ## The list of free records -/

/-- A slab with one more record, which is free. -/
def SlabView.extend (v : SlabView) (bctl : Nat) : SlabView :=
  { v with
    records := v.records ++ [bctl]
    frees := v.records.length :: v.frees }

/-- A slab with some of its records, which are all free. -/
structure Making (heap : Heap) (v : SlabView) : Prop where
  header : heap.slabs v.header = some v.slab
  frees : v.frees = (List.range v.records.length).reverse
  linked : Linked 0 heap.word v.slab.objects (v.frees.map v.recordAt)

section Making

variable {heap after : Heap}
variable {v : SlabView}
variable {i bctl : Nat}

/-- The records of a slab stay when it gets another one. -/
theorem SlabView.recordAt_extend
    (less : i < v.records.length) :
    (v.extend bctl).recordAt i = v.recordAt i := by
  rw [SlabView.recordAt, SlabView.recordAt, SlabView.extend,
    List.getD_append _ _ _ _ less]

/-- The last record of a slab that has got another one. -/
theorem SlabView.recordAt_last :
    (v.extend bctl).recordAt v.records.length = bctl := by
  rw [SlabView.recordAt, SlabView.extend,
    List.getD_append_right _ _ _ _ le_rfl, Nat.sub_self]
  rfl

/-- The header with one more record. -/
theorem SlabView.slab_extend
    (v : SlabView)
    (bctl : Nat) :
    (v.extend bctl).slab =
      { v.slab with
        records := v.slab.records ++ [bctl]
        objects := bctl } := by
  have count : (v.extend bctl).count = v.count := by
    change (v.records ++ [bctl]).length - (v.records.length :: v.frees).length =
      v.records.length - v.frees.length
    rw [List.length_append, List.length_cons]
    exact Nat.add_sub_add_right _ 1 _
  have objects :
      ((v.extend bctl).frees.map (v.extend bctl).recordAt).headD 0 = bctl :=
    SlabView.recordAt_last
  rw [SlabView.slab, count, objects]
  rfl

namespace Making

/-- All records are on the list. -/
theorem mem_frees
    (making : Making heap v) :
    i ∈ v.frees ↔ i < v.records.length := by
  rw [making.frees, List.mem_reverse, List.mem_range]

/-- No object is given out. -/
theorem allFree
    (making : Making heap v)
    (i : Nat) :
    ¬ v.Taken i :=
  fun taken => taken.2 (making.mem_frees.mpr taken.1)

/-- The list has all records, the last one first. -/
theorem records_perm
    (making : Making heap v) :
    v.records.Perm (v.frees.map v.recordAt) := by
  rw [making.frees]
  exact (List.Perm.of_eq v.map_recordAt.symm).trans
    ((List.reverse_perm _).map v.recordAt).symm

/-- `slist_add` of a new record. -/
theorem addRecord_eq
    (making : Making heap v) :
    heap.addRecord v.header bctl =
      some ((heap.store bctl v.slab.objects).setSlab v.header
        (v.extend bctl).slab) := by
  rw [Heap.addRecord, making.header]
  refine (Heap.slistAdd_setSlab heap v.header _ bctl).trans ?_
  rw [SlabView.slab_extend]

/-- The list with a new record in front. -/
theorem extend
    (making : Making heap v)
    (notNull : bctl ≠ 0)
    (header : after.slabs v.header = some (v.extend bctl).slab)
    (link : after.word bctl = v.slab.objects)
    (same : ∀ node ∈ v.records, after.word node = heap.word node) :
    Making after (v.extend bctl) := by
  constructor
  case header => exact header
  case frees =>
    change v.records.length :: v.frees =
      (List.range (v.records ++ [bctl]).length).reverse
    rw [making.frees, List.length_append, List.length_singleton,
      List.range_succ, List.reverse_append]
    rfl
  case linked =>
    have nodes : (v.extend bctl).frees.map (v.extend bctl).recordAt =
        bctl :: v.frees.map v.recordAt := by
      change (v.extend bctl).recordAt v.records.length ::
        v.frees.map (v.extend bctl).recordAt = _
      rw [SlabView.recordAt_last]
      congr 1
      refine List.map_congr_left fun i free => ?_
      exact SlabView.recordAt_extend (making.mem_frees.mp free)
    have objects : (v.extend bctl).slab.objects = bctl :=
      SlabView.recordAt_last
    rw [nodes, objects]
    refine making.linked.push notNull link fun node member => ?_
    exact same node (making.records_perm.mem_iff.mpr member)

end Making

end Making

/-! ## Records among the objects -/

/-- A slab with its header and records in its pages. -/
def SlabView.rooms (c h kaddr objSize n : Nat) : SlabView where
  header := h
  cache := c
  page := kaddr
  colorIndex := 0
  records := (List.range n).map fun i => kaddr + objSize * i
  frees := (List.range n).reverse

theorem SlabView.rooms_succ
    (c h kaddr objSize n : Nat) :
    SlabView.rooms c h kaddr objSize (n + 1) =
      (SlabView.rooms c h kaddr objSize n).extend (kaddr + objSize * n) := by
  have records : (SlabView.rooms c h kaddr objSize n).records.length = n := by
    rw [SlabView.rooms, List.length_map, List.length_range]
  rw [SlabView.extend, records, SlabView.rooms, List.range_succ,
    List.map_append, List.reverse_append]
  rfl

theorem SlabView.recordAt_rooms
    {c h kaddr objSize n i : Nat}
    (less : i < n) :
    (SlabView.rooms c h kaddr objSize n).recordAt i = kaddr + objSize * i := by
  rw [SlabView.recordAt, SlabView.rooms,
    List.getD_eq_getElem _ _ (by simpa using less), List.getElem_map,
    List.getElem_range]

/-- The loop that links the records among the objects. -/
theorem Heap.addSBufctls_spec
    {heap : Heap}
    {c h kaddr objSize : Nat}
    (start : Making heap (SlabView.rooms c h kaddr objSize 0))
    (positive : 0 < kaddr)
    (sizePositive : 0 < objSize)
    (n : Nat) :
    ∃ after, heap.addSBufctls objSize h kaddr n = some after ∧
      Making after (SlabView.rooms c h kaddr objSize n) ∧
      after.pages = heap.pages ∧ after.live = heap.live ∧
      (∀ other, other ≠ h → after.slabs other = heap.slabs other) ∧
      ∀ a, (∀ i < n, a ≠ kaddr + objSize * i) →
        after.word a = heap.word a := by
  induction n with
  | zero =>
      exact ⟨heap, rfl, start, rfl, rfl, fun _ _ => rfl, fun _ _ => rfl⟩
  | succ n inductionHypothesis =>
      obtain ⟨middle, added, making, pages, live, slabs, word⟩ :=
        inductionHypothesis
      have others : ∀ node ∈ (SlabView.rooms c h kaddr objSize n).records,
          node ≠ kaddr + objSize * n := by
        intro node member same
        obtain ⟨i, less, rfl⟩ := List.mem_map.mp member
        have smaller := Nat.mul_lt_mul_of_pos_left (List.mem_range.mp less)
          sizePositive
        omega
      let v := SlabView.rooms c h kaddr objSize n
      let bctl := kaddr + objSize * n
      refine ⟨(middle.store bctl v.slab.objects).setSlab h (v.extend bctl).slab,
        ?_, ?_, pages, live, ?_, ?_⟩
      · rw [addSBufctls, added]
        exact making.addRecord_eq
      · rw [SlabView.rooms_succ]
        refine making.extend (by omega) (Function.update_self ..)
          (Function.update_self ..) fun node member => ?_
        exact Function.update_of_ne (others node member) ..
      · intro other different
        exact (Function.update_of_ne different ..).trans (slabs other different)
      · intro a outside
        refine (Function.update_of_ne (outside n (Nat.lt_succ_self n)) ..).trans ?_
        exact word a fun i less => outside i (Nat.lt_succ_of_lt less)

section OnSlab

variable {m after : Memory}
variable {views : List SlabView}
variable {loose : List Nat}
variable {extra : List SlabPages}
variable {pages : SlabPages}
variable {c : Nat}

/-- Only pages without a slab are written, and headers there. -/
theorem Placed.confined_pages
    {changes : Nat → Prop}
    (placed : Placed m.cache m.heap views loose (pages :: extra))
    (prepared : Prepared m.cache)
    (cache : after.cache = m.cache)
    (dcache : after.dcache = m.dcache)
    (held : after.held = m.held)
    (state : after.state = m.state)
    (word : ∀ a, ¬ pages.Holds a → after.heap.word a = m.heap.word a)
    (slabs : ∀ h, ¬ pages.Holds h → after.heap.slabs h = m.heap.slabs h) :
    Confined changes m after views views loose extra := by
  have isExtra : pages ∈ pages :: extra := List.mem_cons_self
  constructor
  case cache => exact cache
  case dcache => exact dcache
  case held => exact held
  case counts => exact fun c _ => congrArg CacheState.slabCount (congrFun state c)
  case queues =>
    exact fun c _ queue => congrArg (CacheState.que · queue) (congrFun state c)
  case slabs => exact fun _ _ => Iff.rfl
  case objs => exact fun _ _ _ given => given
  case contents =>
    exact fun c obj isLoose given a above below =>
      word a (placed.loose_not_extra prepared isLoose given above below isExtra)
  case infos =>
    intro h isLoose given
    have room := prepared.slabInfo.payload
    have positive : 0 < slabSize := by decide
    exact slabs h (placed.loose_not_extra prepared isLoose given le_rfl
      (by omega) isExtra)
  case words =>
    intro others there a holds
    refine word a fun too => ?_
    have once := (List.nodup_cons.mp placed.pages_nodup).1
    have same :=
      placed.pages_unique
        (placed.pages.mem_iff.mpr List.mem_cons_self)
        (placed.pages.mem_iff.mpr
          (List.mem_cons_of_mem _ (List.mem_append_left _ there))) too holds
    exact once (List.mem_append_left _ (same ▸ there))

/-- A slab with its records among the objects is complete. -/
theorem Making.fits_onSlab
    {cache : Nat → KmemCache}
    {heap : Heap}
    {h kaddr : Nat}
    (making : Making heap
      (SlabView.rooms c h kaddr (cache c).objSize (cache c).objsPerSlab))
    (laid : Laid (cache c))
    (onSlab : (cache c).onSlab = true)
    (positive : 0 < kaddr)
    (aligned : (cache c).slabBytes ∣ kaddr)
    (header : h + slabSize = kaddr + pageSize) :
    ViewFits cache heap
      (SlabView.rooms c h kaddr (cache c).objSize (cache c).objsPerSlab) := by
  have kept : ∀ i < (SlabView.rooms c h kaddr (cache c).objSize
      (cache c).objsPerSlab).records.length, i < (cache c).objsPerSlab := by
    intro i less
    rw [SlabView.rooms, List.length_map, List.length_range] at less
    exact less
  constructor
  case header => exact making.header
  case positive => exact positive
  case aligned => exact aligned
  case color => exact laid.colors
  case sized => rw [SlabView.rooms, List.length_map, List.length_range]
  case once => exact List.nodup_reverse.mpr List.nodup_range
  case bound => exact fun i free => making.mem_frees.mp free
  case linked => exact making.linked
  case unlinked => exact fun i taken => absurd taken (making.allFree i)
  case stored =>
    intro pointed i less known
    rcases known with notFree | unaligned
    · exact absurd (making.mem_frees.mpr less) notFree
    · exact absurd (onSlab.symm.trans (pointed unaligned))
        Bool.false_ne_true.symm
  case onSlab =>
    intro _
    refine ⟨header, fun i less => ?_,
      fun i taken => absurd taken (making.allFree i)⟩
    rw [SlabView.recordAt_rooms (kept i less), SlabView.room, KmemCache.room]
    change _ = kaddr + (cache c).coloff 0 + (cache c).objSize * i
    rw [(laid.onSlab onSlab).coloff_eq, Nat.add_zero]
  case offSlab =>
    exact fun offSlab =>
      absurd (onSlab.symm.trans offSlab) Bool.false_ne_true.symm

/-- The objects, their records and the header are put in the new pages. -/
theorem Sound.fresh_onSlab
    {kaddr : Nat}
    {heap : Heap}
    (sound : Sound m [] views loose (freshPages kaddr (m.cache c).order :: extra))
    (onSlab : (m.cache c).onSlab = true)
    (positive : 0 < kaddr)
    (aligned : pageSize <<< (m.cache c).order ∣ kaddr)
    (added :
      (m.heap.initSlabInfo c (kaddr + (m.cache c).slabBytes - slabSize)
          kaddr).addSBufctls (m.cache c).objSize
          (kaddr + (m.cache c).slabBytes - slabSize) kaddr
          (m.cache c).objsPerSlab =
        some heap) :
    Confined (fun _ => False) m { m with heap } views views loose extra ∧
      ∃ v, v.header = kaddr + (m.cache c).slabBytes - slabSize ∧
        v.cache = c ∧ (∀ i, ¬ v.Taken i) ∧
        Sound { m with heap } [v] views loose extra := by
  have prepared := sound.prepared
  have laid := prepared.laid c
  have rooms := laid.onSlab onSlab
  have bytes : (m.cache c).slabBytes = pageSize := by
    rw [KmemCache.slabBytes, rooms.onePage, Nat.shiftLeft_zero]
  have sizes : slabSize ≤ pageSize ∧ 0 < slabSize := by decide
  have objSize : 0 < (m.cache c).objSize := by
    have room := rooms.rooms
    have word : 0 < pointerSize := by decide
    omega
  generalize isHeader :
    kaddr + (m.cache c).slabBytes - slabSize = h at *
  have header : h + slabSize = kaddr + pageSize := by omega
  have holds : (freshPages kaddr (m.cache c).order).Holds h := by
    change kaddr ≤ h ∧ h < kaddr + (m.cache c).slabBytes
    omega
  have isExtra : freshPages kaddr (m.cache c).order ∈
      freshPages kaddr (m.cache c).order :: extra :=
    List.mem_cons_self
  have placed := sound.placed
  rw [List.nil_append] at placed
  have other := placed.header_not_extra prepared isExtra holds
  have marked := placed.initSlabInfo (c := c) other
  have start : Making (m.heap.initSlabInfo c h kaddr)
      (SlabView.rooms c h kaddr (m.cache c).objSize 0) :=
    ⟨Function.update_self .., rfl, linked_null⟩
  obtain ⟨made, added', making, pages, live, slabs, word⟩ :=
    Heap.addSBufctls_spec start positive objSize
      (m.cache c).objsPerSlab
  obtain rfl := Option.some.inj (added'.symm.trans added)
  have fits :=
    making.fits_onSlab laid onSlab positive aligned header
  -- only the words of the new pages were written
  have same : ∀ a, ¬ (freshPages kaddr (m.cache c).order).Holds a →
      made.word a = m.heap.word a := by
    intro a outside
    refine word a fun i less isRoom => outside ?_
    have inside :
        (m.cache c).room kaddr 0 i + (m.cache c).objSize +
          slabSize ≤ kaddr + pageSize :=
      rooms.room_inside less
    rw [KmemCache.room] at inside
    change kaddr ≤ a ∧ a < kaddr + (m.cache c).slabBytes
    omega
  have sameSlabs : ∀ other, other ≠ h →
      made.slabs other = m.heap.slabs other := fun other different =>
    (slabs other different).trans (Function.update_of_ne different ..)
  refine ⟨placed.confined_pages prepared rfl rfl rfl rfl same
      fun other outside => sameSlabs other ?_, _, rfl, rfl, making.allFree,
    prepared, ?_, sound.queued⟩
  · rintro rfl
    exact outside holds
  · have owned : SlabView.owned m.cache
        (SlabView.rooms c h kaddr (m.cache c).objSize
          (m.cache c).objsPerSlab) = [] :=
      SlabView.owned_onSlab onSlab
    refine Placed.attach (owned ▸ marked) fits making.allFree other ?_ pages
      live ?_ fun offSlab =>
        absurd (onSlab.symm.trans offSlab) Bool.false_ne_true.symm
    · intro w member
      refine slabs w.header fun isHeader => other ?_
      exact isHeader ▸ List.mem_map_of_mem member
    · intro w member j bound a uses
      refine same a fun inside => ?_
      exact placed.uses_not_extra prepared isExtra inside member bound uses

/-- `slab_kmem_cache_grow` for records among the objects. -/
theorem Sound.grow_onSlab
    {kmalloc : Memory → Nat → Option (Nat × Memory)}
    {result : Except Errno Nat}
    (sound : Sound m [] views loose extra)
    (onSlab : (m.cache c).onSlab = true)
    (grown : m.slabKmemCacheGrow kmalloc c = some (result, after)) :
    Confined (fun _ => False) m after views views loose extra ∧
      (result = .error .enomem ∧ Sound after [] views loose extra ∨
        ∃ v, result = .ok v.header ∧ v.cache = c ∧ (∀ i, ¬ v.Taken i) ∧
          Sound after [v] views loose extra) := by
  rw [Memory.slabKmemCacheGrow] at grown
  dsimp only at grown
  split at grown
  · cases grown
  · next middle got =>
    obtain ⟨rfl, rfl⟩ := Prod.mk.inj (Option.some.inj grown)
    obtain ⟨confined, ⟨_, sound⟩ | ⟨_, found, _⟩⟩ :=
      sound.pgifGetFreePageCluster_spec got
    · exact ⟨confined, .inl ⟨rfl, sound⟩⟩
    · cases found
  · next kaddr middle got =>
    obtain ⟨confined, ⟨none, _⟩ | ⟨_, found, positive, aligned, sound₁⟩⟩ :=
      sound.pgifGetFreePageCluster_spec got
    · cases none
    · obtain rfl := Option.some.inj found
      rw [← confined.cache] at onSlab grown aligned sound₁
      rw [if_pos onSlab] at grown
      obtain ⟨heap, added, both⟩ := Option.map_eq_some_iff.mp grown
      obtain ⟨rfl, rfl⟩ := Prod.mk.inj both
      obtain ⟨confined', v, header, ofCache, allFree, done⟩ :=
        sound₁.fresh_onSlab onSlab positive aligned added
      refine ⟨confined.trans confined', .inr ⟨v, ?_, ofCache, allFree, done⟩⟩
      exact congrArg Except.ok header.symm

end OnSlab

end RiscvWorkshop.PageSlab
