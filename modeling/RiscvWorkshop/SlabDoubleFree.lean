import Mathlib
import RiscvWorkshop.SlabCallers

namespace RiscvWorkshop.PageSlab

open Pfdb
open Kmem

/-!
# Freeing an object that is free

The link of a record tells whether it is on the list of free objects, except for
the last record of the list, whose link is null as well.  With other objects of
the slab in use, the count does not tell either, and the list becomes a circle.
-/

/-! ## Objects without alignment -/

/-- An object without alignment fits in its room behind the record. -/
theorem create_room
    {dcache : Dcache}
    {args : CacheArgs}
    {made : KmemCache}
    (created : slabKmemCacheCreate dcache args = .ok made)
    (onSlab : made.onSlab = true)
    (unaligned : made.align = 0) :
    made.payloadSize + pointerSize ≤ made.objSize := by
  rw [slabKmemCacheCreate, calcSlabSize] at created
  by_cases odd : args.align % 2 = 1
  · rw [if_pos odd] at created
    cases created
  rw [if_neg odd] at created
  generalize (if args.alignHw then hwAlign else args.align) = objAlign at created
  simp only at created
  split at created
  · next small =>
    rw [Except.ok.injEq] at created
    subst created
    have none : objAlign = 0 := unaligned
    subst none
    have aligned : alignedSize args.size 0 = args.size := if_neg (lt_irrefl 0)
    have less : args.size < 512 := by
      have less := small.2
      rw [aligned] at less
      exact less
    have noWrap : args.size + sBufctlSize + pointerSize < sizeLimit := by
      rw [sBufctlSize, pointerSize, sizeLimit_eq]
      omega
    dsimp only
    rw [aligned, Nat.mod_eq_of_lt (by omega), roundupSize_eq noWrap]
    exact le_roundupAlign (by decide)
  · split at created
    · cases created
    · rw [Except.ok.injEq] at created
      subst created
      cases onSlab

/-- Every object without alignment is as `alloc_slab_obj` asserts. -/
theorem Created.fitted
    {dcache : Dcache}
    {cache : Nat → KmemCache}
    {v : SlabView}
    (created : Created dcache cache)
    (unaligned : (cache v.cache).align = 0)
    (i : Nat) :
    v.Fitted cache i := by
  intro onSlab
  have room : (cache v.cache).payloadSize + pointerSize ≤
      (cache v.cache).objSize := by
    by_cases less : v.cache < slabPreallocCacheNr
    · exact create_room (created.prealloc v.cache less) onSlab unaligned
    · obtain ⟨args, made⟩ := created.others v.cache (Nat.not_lt.mp less)
      exact create_room made onSlab unaligned
  rw [KmemCache.objAt, KmemCache.alignObj, if_neg (by omega)]
  omega

/-- Where the object of a free record is, in a cache without alignment. -/
def Memory.objOf (m : Memory) (sinfo : Slab) (bctl : Nat) : Nat :=
  if (m.cache sinfo.cache).onSlab then
    bctl + sBufctlSize
  else
    m.heap.word (bctl + bufctlObj)

section DoubleFree

variable {m : Memory}
variable {v : SlabView}
variable {views : List SlabView}
variable {loose : List Nat}
variable {extra : List SlabPages}
variable {i : Nat}

/-- That object is the one of the record. -/
theorem ViewFits.objOf_eq
    (fits : ViewFits m.cache m.heap v)
    (unaligned : (m.cache v.cache).align = 0)
    (less : i < v.records.length) :
    m.objOf v.slab (v.recordAt i) = v.objAt m.cache i := by
  refine .trans ?_ (fits.objAt_eq less)
  rw [KmemCache.alignObj, if_neg (by omega)]
  rfl

/-- The record of a free object without alignment is found as well. -/
theorem ViewFits.bufctlOf_eq
    (fits : ViewFits m.cache m.heap v)
    (unaligned : (m.cache v.cache).align = 0)
    (less : i < v.records.length) :
    m.heap.bufctlOf (m.cache v.cache) (v.objAt m.cache i) = v.recordAt i := by
  rw [Heap.bufctlOf]
  cases onSlab : (m.cache v.cache).onSlab with
  | true =>
      have front := (fits.onSlab onSlab).2.1 i less
      rw [if_pos ⟨unaligned, rfl⟩, front, SlabView.objAt, KmemCache.objAt,
        KmemCache.alignObj, if_neg (by omega)]
      exact Nat.add_sub_cancel ..
  | false =>
      rw [if_neg fun both => Bool.false_ne_true both.2]
      exact fits.stored (fun _ => onSlab) i less (.inr unaligned)

/-- The last record of the free list is that of the last free object. -/
theorem Placed.last_record
    {cache : Nat → KmemCache}
    {heap : Heap}
    (placed : Placed cache heap views loose extra)
    (prepared : Prepared cache)
    (member : v ∈ views)
    (less : i < v.records.length) :
    (v.frees.map v.recordAt).getLast? = some (v.recordAt i) ↔
      v.frees.getLast? = some i := by
  rw [List.getLast?_map, Option.map_eq_some_iff]
  constructor
  · rintro ⟨j, last, same⟩
    have bound := (placed.fits v member).bound j (List.mem_of_getLast? last)
    rw [last,
      (placed.recordAt_unique prepared member member bound less same).2]
  · exact fun last => ⟨i, last, rfl⟩

/-- What is left after a free object is freed that the code takes for one in use. -/
structure FreedTwice
    (m after : Memory)
    (v : SlabView)
    (i : Nat) : Prop where
  slabs : after.heap.slabs v.header = some (v.put i).slab
  word : after.heap.word = (m.heap.freed m.cache v i).word

/-- The destructor of a free object does not reach the records. -/
theorem Sound.destructor_word
    {w : SlabView}
    {j : Nat}
    (sound : Sound m [] views loose extra)
    (member : v ∈ views)
    (fitted : v.Fitted m.cache i)
    (isFree : i ∈ v.frees)
    (other : w ∈ views)
    (less : j < w.records.length) :
    ¬ v.Payload m.cache i (w.recordAt j) := by
  obtain ⟨prepared, placed, _⟩ := sound
  rw [List.nil_append] at placed
  have bound := (placed.fits v member).bound i isFree
  have notGiven := placed.not_owned_of_free prepared member isFree
  by_cases same : v = w ∧ i = j
  · obtain ⟨rfl, rfl⟩ := same
    exact placed.uses_not_payload prepared member bound notGiven fitted (.inl rfl)
  · exact (placed.uses_apart prepared member other bound less same notGiven
      fitted (.inl rfl)).2.2

/-- The link is null for the last record of the free list only. -/
theorem Sound.link_eq_null
    (sound : Sound m [] views loose extra)
    (member : v ∈ views)
    (fitted : v.Fitted m.cache i)
    (isFree : i ∈ v.frees) :
    (m.heap.call (m.cache v.cache).destructor (v.objAt m.cache i)
        (m.cache v.cache).payloadSize).word (v.recordAt i) = 0 ↔
      v.frees.getLast? = some i := by
  have placed := sound.placed
  rw [List.nil_append] at placed
  have fits := placed.fits v member
  have bound := fits.bound i isFree
  have link :
      (m.heap.call (m.cache v.cache).destructor (v.objAt m.cache i)
        (m.cache v.cache).payloadSize).word (v.recordAt i) =
      m.heap.word (v.recordAt i) :=
    m.heap.call_word _
      (sound.destructor_word member fitted isFree member bound)
  rw [link, fits.linked.next_eq_null (List.mem_map_of_mem isFree)]
  exact placed.last_record sound.prepared member bound

/-- A free is stopped if no object is in use, or by the link of the record. -/
theorem Sound.doubleFree_stops
    (sound : Sound m [] views loose extra)
    (member : v ∈ views)
    (unaligned : (m.cache v.cache).align = 0)
    (fitted : v.Fitted m.cache i)
    (isFree : i ∈ v.frees)
    (noticed : v.count = 0 ∨ v.frees.getLast? ≠ some i) :
    m.slabKmemCacheFree (v.objAt m.cache i) = none := by
  have placed := sound.placed
  rw [List.nil_append] at placed
  have fits := placed.fits v member
  have bound := fits.bound i isFree
  have pages : m.heap.clusterOf (v.objAt m.cache i) = some (v.pages m.cache) :=
    placed.clusterOf_eq member
      (placed.holds_objAt sound.prepared member bound)
  rcases noticed with unused | inner
  · have zero : v.slab.count = 0 := unused
    simp only [Memory.slabKmemCacheFree, pages, SlabView.pages, fits.header,
      if_pos zero]
  · have bufctl :
        (m.heap.setSlab v.header
            { v.slab with count := v.slab.count - 1 }).bufctlOf
            (m.cache v.slab.cache) (v.objAt m.cache i) =
          v.recordAt i :=
      fits.bufctlOf_eq unaligned bound
    have linked := mt (sound.link_eq_null member fitted isFree).mp inner
    have stopped :
        ((m.heap.setSlab v.header
            { v.slab with count := v.slab.count - 1 }).call
            (m.cache v.slab.cache).destructor (v.objAt m.cache i)
            (m.cache v.slab.cache).payloadSize).freeSlabObj v.header
            (v.recordAt i) =
          none := by
      rw [Heap.call_setSlab]
      exact if_pos linked
    simp only [Memory.slabKmemCacheFree, pages, SlabView.pages, fits.header,
      bufctl, stopped, ite_self]

/-- Otherwise the slab and its records are as after a free that is right. -/
theorem Sound.doubleFree_goesOn
    (sound : Sound m [] views loose extra)
    (member : v ∈ views)
    (unaligned : (m.cache v.cache).align = 0)
    (fitted : v.Fitted m.cache i)
    (isFree : i ∈ v.frees)
    (used : v.count ≠ 0)
    (last : v.frees.getLast? = some i) :
    ∃ after, m.slabKmemCacheFree (v.objAt m.cache i) = some after ∧
      FreedTwice m after v i := by
  obtain ⟨rest, _, first⟩ := sound.first member
  have placed := sound.placed
  rw [List.nil_append] at placed
  have fits := placed.fits v member
  have bound := fits.bound i isFree
  have holds := placed.holds_objAt sound.prepared member bound
  have releasable : Releasable m v i :=
    { pages := placed.clusterOf_eq member holds
      header := fits.header
      bufctl := fits.bufctlOf_eq unaligned bound
      used
      unlinked := (sound.link_eq_null member fitted isFree).mpr last
      notLinked := first.not_mem_queueDel }
  have header : (m.heap.freed m.cache v i).slabs v.header = some (v.put i).slab :=
    Function.update_self ..
  exact ⟨_, releasable.slabKmemCacheFree_eq, header, rfl⟩

/-! ## Runs -/

/-- The free list after a free that was not noticed: it leads back to the record. -/
structure Circle
    (m after : Memory)
    (h : Nat)
    (sinfo : Slab)
    (frees : List Nat)
    (bctl : Nat) : Prop where
  slabs : after.heap.slabs h =
    some { sinfo with objects := bctl, count := sinfo.count - 1 }
  first : after.heap.word bctl = sinfo.objects
  back : Linked bctl after.heap.word sinfo.objects frees.dropLast

/-- The slab of the user, with two objects in use. -/
def userSlab : Slab where
  cache := slabPreallocCacheNr
  objects := 138936
  count := 2
  page := 0x10000
  records := [139016, 138976, 138936, 138896, 138856]

/-- And the pages of this slab. -/
def userPages : SlabPages where
  kaddr := 0x10000
  order := 2
  slabp := 134512

end DoubleFree

end RiscvWorkshop.PageSlab
