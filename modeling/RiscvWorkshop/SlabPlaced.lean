import Mathlib
import RiscvWorkshop.SlabMemory

namespace RiscvWorkshop.PageSlab

open Pfdb
open Kmem

/-!
# Slabs placed in memory

A slab is seen as its records in order and the numbers of its free objects in
the order of the list.  The words that a slab relies on belong to one object of
it each, so that a write to one object leaves all others as they are.
-/

/-- A slab, the records of its objects, and which of them are free. -/
structure SlabView where
  header : Nat
  cache : Nat
  page : Nat
  colorIndex : Nat
  records : List Nat
  frees : List Nat
deriving DecidableEq

namespace SlabView

/-- The record of one object. -/
def recordAt (v : SlabView) (i : Nat) : Nat :=
  v.records.getD i 0

/-- An object that is given out. -/
def Taken (v : SlabView) (i : Nat) : Prop :=
  i < v.records.length ∧ i ∉ v.frees

/-- The number of objects that are given out. -/
def count (v : SlabView) : Nat :=
  v.records.length - v.frees.length

/-- The header of the slab. -/
def slab (v : SlabView) : Slab where
  cache := v.cache
  objects := (v.frees.map v.recordAt).headD 0
  count := v.count
  page := v.page
  records := v.records

/-- The address of one object. -/
def objAt (cache : Nat → KmemCache) (v : SlabView) (i : Nat) : Nat :=
  (cache v.cache).objAt v.page ((cache v.cache).coloff v.colorIndex) i

/-- Where the room of one object starts. -/
def room (cache : Nat → KmemCache) (v : SlabView) (i : Nat) : Nat :=
  (cache v.cache).room v.page ((cache v.cache).coloff v.colorIndex) i

/-- The words of one object in the pages. -/
def Slot (cache : Nat → KmemCache) (v : SlabView) (i a : Nat) : Prop :=
  (cache v.cache).Slot v.page ((cache v.cache).coloff v.colorIndex) i a

/-- The words of one object that its owner may use. -/
def Payload (cache : Nat → KmemCache) (v : SlabView) (i a : Nat) : Prop :=
  (cache v.cache).Payload v.page ((cache v.cache).coloff v.colorIndex) i a

/-- What the allocation asserts of an object. -/
def Fitted (cache : Nat → KmemCache) (v : SlabView) (i : Nat) : Prop :=
  (cache v.cache).Fitted v.page ((cache v.cache).coloff v.colorIndex) i

/-- An object with its record. -/
def given (cache : Nat → KmemCache) (v : SlabView) (i : Nat) : Given where
  obj := v.objAt cache i
  bufctl := v.recordAt i

/-- The page cluster of the slab. -/
def pages (cache : Nat → KmemCache) (v : SlabView) : SlabPages where
  kaddr := v.page
  order := (cache v.cache).order
  slabp := v.header

/-- The objects that were allocated for the slab itself. -/
def owned (cache : Nat → KmemCache) (v : SlabView) : List Nat :=
  if (cache v.cache).onSlab then [] else v.header :: v.records

/-- The words that the allocator relies on for one object. -/
def Uses (cache : Nat → KmemCache) (v : SlabView) (i a : Nat) : Prop :=
  a = v.recordAt i ∨
    ((cache v.cache).onSlab = false ∧ a = v.recordAt i + bufctlObj) ∨
    ((cache v.cache).pointed ∧ (i ∉ v.frees ∨ (cache v.cache).align = 0) ∧
      a = v.objAt cache i - pointerSize)

end SlabView

/-- The cache that the headers of slabs come from. -/
def slabInfoCache : Nat := 5

/-- The cache that the records of objects come from. -/
def bufctlCache : Nat := 2

/-- A cache that `slab_kmem_cache_grow` allocates from. -/
structure RecordCache (cache : KmemCache) (size : Nat) : Prop where
  onSlab : cache.onSlab = true
  unaligned : cache.align = 0
  payload : size ≤ cache.payloadSize

/-- Caches whose objects are inside, and those for headers and records. -/
structure Prepared (cache : Nat → KmemCache) : Prop where
  laid : ∀ c, Laid (cache c)
  slabInfo : RecordCache (cache slabInfoCache) slabSize
  bufctl : RecordCache (cache bufctlCache) bufctlSize

/-- A slab is in memory as it is seen. -/
structure ViewFits
    (cache : Nat → KmemCache)
    (heap : Heap)
    (v : SlabView) : Prop where
  header : heap.slabs v.header = some v.slab
  positive : 0 < v.page
  aligned : (cache v.cache).slabBytes ∣ v.page
  color : v.colorIndex < (cache v.cache).colors
  sized : v.records.length = (cache v.cache).objsPerSlab
  once : v.frees.Nodup
  bound : ∀ i ∈ v.frees, i < v.records.length
  linked : Linked 0 heap.word v.slab.objects (v.frees.map v.recordAt)
  unlinked : ∀ i, v.Taken i → heap.word (v.recordAt i) = 0
  stored : (cache v.cache).pointed → ∀ i < v.records.length,
    (i ∉ v.frees ∨ (cache v.cache).align = 0) →
      heap.word (v.objAt cache i - pointerSize) = v.recordAt i
  onSlab : (cache v.cache).onSlab = true →
    v.header + slabSize = v.page + pageSize ∧
      (∀ i < v.records.length, v.recordAt i = v.room cache i) ∧
      ∀ i, v.Taken i → v.Fitted cache i
  offSlab : (cache v.cache).onSlab = false →
    ∀ i < v.records.length,
      heap.word (v.recordAt i + bufctlObj) = v.room cache i + pointerSize

/-- An object of a cache that is given out. -/
def ObjOf
    (cache : Nat → KmemCache)
    (views : List SlabView)
    (c obj : Nat) : Prop :=
  ∃ v ∈ views, v.cache = c ∧ ∃ i, v.Taken i ∧ v.objAt cache i = obj

/--
All slabs are in memory.  The objects given out are the loose ones, which
callers have, and those that slabs were made with; page clusters without a slab
are extra.
-/
structure Placed
    (cache : Nat → KmemCache)
    (heap : Heap)
    (views : List SlabView)
    (loose : List Nat)
    (extra : List SlabPages) : Prop where
  fits : ∀ v ∈ views, ViewFits cache heap v
  pages : heap.pages.Perm (extra ++ views.map (SlabView.pages cache))
  apart : heap.pages.Pairwise SlabPages.Apart
  headers : (views.map SlabView.header).Nodup
  live : ∀ x, x ∈ heap.live ↔ ∃ v ∈ views, ∃ i, v.Taken i ∧ x = v.given cache i
  once : (heap.live.map Given.obj).Nodup
  owners : (loose ++ views.flatMap (SlabView.owned cache)).Nodup
  covers : ∀ obj,
    obj ∈ heap.live.map Given.obj ↔
      obj ∈ loose ++ views.flatMap (SlabView.owned cache)
  kept : ∀ v ∈ views, (cache v.cache).onSlab = false →
    ObjOf cache views slabInfoCache v.header ∧
      ∀ bctl ∈ v.records, ObjOf cache views bufctlCache bctl

section Words

variable {cache : Nat → KmemCache}
variable {heap after : Heap}
variable {v w : SlabView}
variable {views : List SlabView}
variable {loose : List Nat}
variable {extra : List SlabPages}
variable {i j a obj : Nat}

/-- The order of slabs in the view does not matter. -/
theorem Placed.perm
    (placed : Placed cache heap views loose extra)
    {others : List SlabView}
    (same : views.Perm others) :
    Placed cache heap others loose extra := by
  obtain ⟨fits, pages, apart, headers, live, once, owners, covers, kept⟩ :=
    placed
  have members : ∀ v, v ∈ others ↔ v ∈ views := fun v => same.mem_iff.symm
  have ownedPerm :
      (loose ++ views.flatMap (SlabView.owned cache)).Perm
        (loose ++ others.flatMap (SlabView.owned cache)) :=
    (same.flatMap_right _).append_left loose
  constructor
  case fits => exact fun v member => fits v ((members v).mp member)
  case pages => exact pages.trans ((same.map _).append_left extra)
  case apart => exact apart
  case headers => exact (same.map _).nodup headers
  case live =>
    intro x
    simp only [members]
    exact live x
  case once => exact once
  case owners => exact ownedPerm.nodup owners
  case covers => exact fun obj => (covers obj).trans ownedPerm.mem_iff
  case kept =>
    intro v member offSlab
    simp only [ObjOf, members]
    exact kept v ((members v).mp member) offSlab

/-! ## One owner for each word -/

instance : Std.Symm SlabPages.Apart :=
  ⟨fun _ _ => Or.symm⟩

/-- A record of a slab is in its list. -/
theorem SlabView.recordAt_mem
    (less : i < v.records.length) :
    v.recordAt i ∈ v.records := by
  rw [SlabView.recordAt, List.getD_eq_getElem _ _ less]
  exact List.getElem_mem less

/-- The word in front of an object is in the slot of the object. -/
theorem Prepared.slot_of_front
    (prepared : Prepared cache)
    (v : SlabView)
    (i : Nat) :
    v.Slot cache i (v.objAt cache i - pointerSize) ∧
      ¬ v.Payload cache i (v.objAt cache i - pointerSize) := by
  have laid := prepared.laid v.cache
  have notPayload : ∀ {a}, a < v.objAt cache i → ¬ v.Payload cache i a :=
    fun less payload => absurd payload.1 (Nat.not_le.mpr less)
  by_cases pointed : (cache v.cache).pointed
  · have inSlot :=
      laid.slot_of_pointer pointed v.page
        ((cache v.cache).coloff v.colorIndex) i
    exact ⟨inSlot.1, notPayload inSlot.2⟩
  · -- without a pointer the word in front is the record
    obtain ⟨unaligned, onSlab⟩ := Classical.not_imp.mp pointed
    have inSlot :=
      laid.slot_of_room (Bool.eq_true_of_not_eq_false onSlab) v.page
        ((cache v.cache).coloff v.colorIndex) i
    have front : v.objAt cache i = v.room cache i + pointerSize := by
      rw [SlabView.objAt, KmemCache.objAt, KmemCache.alignObj,
        if_neg (by omega : ¬ (cache v.cache).align > 0)]
      rfl
    rw [front, Nat.add_sub_cancel]
    exact ⟨inSlot.1, notPayload (front ▸ Nat.lt_add_of_pos_right (by decide))⟩

/-- A slot is in the pages of its slab. -/
theorem Placed.slot_inside
    (placed : Placed cache heap views loose extra)
    (prepared : Prepared cache)
    (member : v ∈ views)
    (less : i < v.records.length)
    (slot : v.Slot cache i a) :
    (v.pages cache).Holds a ∧
      ((cache v.cache).onSlab = true → a < v.header) := by
  have fits := placed.fits v member
  have inside :=
    (prepared.laid v.cache).slot_inside fits.aligned fits.color
      (fits.sized ▸ less) slot
  refine ⟨⟨inside.1, inside.2.1⟩, fun onSlab => ?_⟩
  have header := (fits.onSlab onSlab).1
  have last := inside.2.2 onSlab
  omega

/-- The page cluster of a slab is there. -/
theorem Placed.pages_mem
    (placed : Placed cache heap views loose extra)
    (member : v ∈ views) :
    v.pages cache ∈ heap.pages :=
  placed.pages.mem_iff.mpr
    (List.mem_append_right _ (List.mem_map_of_mem member))

/-- Slabs with a common page are the same. -/
theorem Placed.view_unique
    (placed : Placed cache heap views loose extra)
    (member : v ∈ views)
    (other : w ∈ views)
    (holds : (v.pages cache).Holds a)
    (too : (w.pages cache).Holds a) :
    v = w := by
  have here := placed.pages_mem member
  have there := placed.pages_mem other
  have same : v.pages cache = w.pages cache := by
    by_contra different
    have apart := placed.apart.forall here there different
    rw [SlabPages.Apart] at apart
    rw [SlabPages.Holds] at holds too
    omega
  exact List.inj_on_of_nodup_map placed.headers member other
    (congrArg SlabPages.slabp same)

/-- A word is in one slot. -/
theorem Placed.slot_unique
    (placed : Placed cache heap views loose extra)
    (prepared : Prepared cache)
    (member : v ∈ views)
    (other : w ∈ views)
    (less : i < v.records.length)
    (bound : j < w.records.length)
    (slot : v.Slot cache i a)
    (too : w.Slot cache j a) :
    v = w ∧ i = j := by
  obtain rfl :=
    placed.view_unique member other
      (placed.slot_inside prepared member less slot).1
      (placed.slot_inside prepared other bound too).1
  exact ⟨rfl, (prepared.laid v.cache).slot_unique
    (placed.fits v member).aligned slot too⟩

/-- An object is at one place. -/
theorem Placed.objAt_unique
    (placed : Placed cache heap views loose extra)
    (prepared : Prepared cache)
    (member : v ∈ views)
    (other : w ∈ views)
    (less : i < v.records.length)
    (bound : j < w.records.length)
    (same : v.objAt cache i = w.objAt cache j) :
    v = w ∧ i = j := by
  have front := (prepared.slot_of_front w j).1
  rw [← same] at front
  exact placed.slot_unique prepared member other less bound
    (prepared.slot_of_front v i).1 front

/-- The words of an object that is given out are in its slot. -/
theorem Placed.slot_of_payload
    (placed : Placed cache heap views loose extra)
    (member : v ∈ views)
    (taken : v.Taken i)
    (payload : v.Payload cache i a) :
    v.Slot cache i a := by
  refine KmemCache.slot_of_payload (fun onSlab => ?_) payload
  exact ((placed.fits v member).onSlab onSlab).2.2 i taken onSlab

/-- The words of a record outside the pages are those of an object. -/
theorem Placed.record_payload
    (placed : Placed cache heap views loose extra)
    (prepared : Prepared cache)
    (member : v ∈ views)
    (less : i < v.records.length)
    (offSlab : (cache v.cache).onSlab = false)
    (above : v.recordAt i ≤ a)
    (below : a < v.recordAt i + bufctlSize) :
    ∃ w ∈ views, ∃ j, w.Taken j ∧ w.objAt cache j = v.recordAt i ∧
      w.Payload cache j a := by
  obtain ⟨w, other, isBufctl, j, taken, at_record⟩ :=
    (placed.kept v member offSlab).2 _ (SlabView.recordAt_mem less)
  have payload := prepared.bufctl.payload
  rw [← isBufctl] at payload
  refine ⟨w, other, j, taken, at_record, ?_⟩
  rw [SlabView.Payload, KmemCache.Payload]
  rw [SlabView.objAt] at at_record
  omega

/-- An object that a slab was made with is of no other slab, and not loose. -/
theorem Placed.owner_unique
    (placed : Placed cache heap views loose extra)
    (member : v ∈ views)
    (owns : obj ∈ v.owned cache) :
    obj ∉ loose ∧ (v.owned cache).Nodup ∧
      ∀ w ∈ views, obj ∈ w.owned cache → v = w := by
  obtain ⟨_, nodup, disjoint⟩ := List.nodup_append.mp placed.owners
  obtain ⟨each, pairs⟩ := List.nodup_flatMap.mp nodup
  refine ⟨fun isLoose => ?_, each v member, fun w other too => ?_⟩
  · exact disjoint obj isLoose obj
      (List.mem_flatMap.mpr ⟨v, member, owns⟩) rfl
  · by_contra different
    have : Std.Symm
        (Function.onFun List.Disjoint (SlabView.owned cache)) :=
      ⟨fun _ _ => List.Disjoint.symm⟩
    exact pairs.forall member other different owns too

/-- The objects of a slab that keeps its records elsewhere. -/
theorem SlabView.owned_offSlab
    (offSlab : (cache v.cache).onSlab = false) :
    v.owned cache = v.header :: v.records := by
  rw [SlabView.owned, offSlab, if_neg Bool.false_ne_true]

theorem SlabView.owned_onSlab
    (onSlab : (cache v.cache).onSlab = true) :
    v.owned cache = [] := by
  rw [SlabView.owned, if_pos onSlab]

/-- A record outside the pages is the record of one object. -/
theorem Placed.record_unique
    (placed : Placed cache heap views loose extra)
    (member : v ∈ views)
    (other : w ∈ views)
    (less : i < v.records.length)
    (bound : j < w.records.length)
    (offSlab : (cache v.cache).onSlab = false)
    (too : (cache w.cache).onSlab = false)
    (same : v.recordAt i = w.recordAt j) :
    v = w ∧ i = j := by
  have owns : v.recordAt i ∈ v.owned cache := by
    rw [SlabView.owned_offSlab offSlab]
    exact List.mem_cons_of_mem _ (SlabView.recordAt_mem less)
  have owns' : v.recordAt i ∈ w.owned cache := by
    rw [same, SlabView.owned_offSlab too]
    exact List.mem_cons_of_mem _ (SlabView.recordAt_mem bound)
  obtain ⟨_, nodup, unique⟩ := placed.owner_unique member owns
  obtain rfl := unique w other owns'
  rw [SlabView.owned_offSlab offSlab, List.nodup_cons] at nodup
  rw [SlabView.recordAt, SlabView.recordAt, List.getD_eq_getElem _ _ less,
    List.getD_eq_getElem _ _ bound] at same
  exact ⟨rfl, nodup.2.getElem_inj_iff.mp same⟩

/--
A word belongs to an object if it is in the slot of the object, unless the
object was given to a slab for its records, or if it is in the record of the
object and that is not in the pages.
-/
def Owns
    (cache : Nat → KmemCache)
    (views : List SlabView)
    (v : SlabView)
    (i a : Nat) : Prop :=
  (v.Slot cache i a ∧
      ¬ (v.Payload cache i a ∧
        ∃ w ∈ views, v.objAt cache i ∈ w.owned cache)) ∨
    ((cache v.cache).onSlab = false ∧
      v.recordAt i ≤ a ∧ a < v.recordAt i + bufctlSize)

/-- A record outside the pages is not in a word of another object. -/
theorem Placed.record_not_slot
    (placed : Placed cache heap views loose extra)
    (prepared : Prepared cache)
    (member : v ∈ views)
    (other : w ∈ views)
    (less : i < v.records.length)
    (bound : j < w.records.length)
    (slot : v.Slot cache i a)
    (notGiven :
      ¬ (v.Payload cache i a ∧
        ∃ w ∈ views, v.objAt cache i ∈ w.owned cache))
    (offSlab : (cache w.cache).onSlab = false)
    (above : w.recordAt j ≤ a)
    (below : a < w.recordAt j + bufctlSize) :
    False := by
  obtain ⟨u, there, k, taken, at_record, payload⟩ :=
    placed.record_payload prepared other bound offSlab above below
  have inSlot := placed.slot_of_payload there taken payload
  obtain ⟨rfl, rfl⟩ :=
    placed.slot_unique prepared member there less taken.1 slot inSlot
  refine notGiven ⟨payload, w, other, ?_⟩
  rw [at_record, SlabView.owned_offSlab offSlab]
  exact List.mem_cons_of_mem _ (SlabView.recordAt_mem bound)

/-- A word belongs to one object. -/
theorem Placed.owns_unique
    (placed : Placed cache heap views loose extra)
    (prepared : Prepared cache)
    (member : v ∈ views)
    (other : w ∈ views)
    (less : i < v.records.length)
    (bound : j < w.records.length)
    (owns : Owns cache views v i a)
    (too : Owns cache views w j a) :
    v = w ∧ i = j := by
  rcases owns with ⟨slot, notGiven⟩ | ⟨offSlab, above, below⟩ <;>
    rcases too with ⟨slot', notGiven'⟩ | ⟨offSlab', above', below'⟩
  · exact placed.slot_unique prepared member other less bound slot slot'
  · exact (placed.record_not_slot prepared member other less bound slot
      notGiven offSlab' above' below').elim
  · exact (placed.record_not_slot prepared other member bound less slot'
      notGiven' offSlab above below).elim
  · -- both are words of an object that a slab was made with
    obtain ⟨u, there, k, taken, at_record, payload⟩ :=
      placed.record_payload prepared member less offSlab above below
    obtain ⟨u', there', k', taken', at_record', payload'⟩ :=
      placed.record_payload prepared other bound offSlab' above' below'
    obtain ⟨rfl, rfl⟩ :=
      placed.slot_unique prepared there there' taken.1 taken'.1
        (placed.slot_of_payload there taken payload)
        (placed.slot_of_payload there' taken' payload')
    exact placed.record_unique member other less bound offSlab offSlab'
      (at_record.symm.trans at_record')

/-- The words that the allocator relies on belong to their object. -/
theorem Placed.owns_of_uses
    (placed : Placed cache heap views loose extra)
    (prepared : Prepared cache)
    (member : v ∈ views)
    (less : i < v.records.length)
    (uses : v.Uses cache i a) :
    Owns cache views v i a := by
  have word : bufctlObj < bufctlSize := by decide
  rcases uses with rfl | ⟨offSlab, rfl⟩ | ⟨_, _, rfl⟩
  · cases kind : (cache v.cache).onSlab with
    | true =>
        have fits := placed.fits v member
        have first := ((fits.onSlab kind).2.1 i less)
        have inSlot :=
          (prepared.laid v.cache).slot_of_room kind v.page
            ((cache v.cache).coloff v.colorIndex) i
        rw [first]
        refine .inl ⟨inSlot.1, fun given => ?_⟩
        exact absurd given.1.1 (Nat.not_le.mpr inSlot.2)
    | false => exact .inr ⟨kind, le_rfl, by omega⟩
  · exact .inr ⟨offSlab, by omega, by omega⟩
  · have front := prepared.slot_of_front v i
    exact .inl ⟨front.1, fun given => front.2 given.1⟩

/-- What belongs to another object is not written about one object. -/
theorem Placed.owns_apart
    (placed : Placed cache heap views loose extra)
    (prepared : Prepared cache)
    (member : v ∈ views)
    (other : w ∈ views)
    (less : i < v.records.length)
    (bound : j < w.records.length)
    (different : ¬ (v = w ∧ i = j))
    (notGiven : ¬ ∃ u ∈ views, v.objAt cache i ∈ u.owned cache)
    (fitted : v.Fitted cache i)
    (owns : Owns cache views w j a) :
    a ≠ v.recordAt i ∧ a ≠ v.objAt cache i - pointerSize ∧
      ¬ v.Payload cache i a := by
  have notOwns : ¬ Owns cache views v i a := fun too =>
    different (placed.owns_unique prepared member other less bound too owns)
  refine ⟨?_, ?_, ?_⟩
  · rintro rfl
    exact notOwns (placed.owns_of_uses prepared member less (.inl rfl))
  · rintro rfl
    have front := prepared.slot_of_front v i
    exact notOwns (.inl ⟨front.1, fun given => front.2 given.1⟩)
  · intro payload
    refine notOwns (.inl ⟨KmemCache.slot_of_payload fitted payload, ?_⟩)
    exact fun given => notGiven given.2

/-- Writing about one object leaves what the allocator relies on for the others. -/
theorem Placed.uses_apart
    (placed : Placed cache heap views loose extra)
    (prepared : Prepared cache)
    (member : v ∈ views)
    (other : w ∈ views)
    (less : i < v.records.length)
    (bound : j < w.records.length)
    (different : ¬ (v = w ∧ i = j))
    (notGiven : ¬ ∃ u ∈ views, v.objAt cache i ∈ u.owned cache)
    (fitted : v.Fitted cache i)
    (uses : w.Uses cache j a) :
    a ≠ v.recordAt i ∧ a ≠ v.objAt cache i - pointerSize ∧
      ¬ v.Payload cache i a :=
  placed.owns_apart prepared member other less bound different notGiven fitted
    (placed.owns_of_uses prepared other bound uses)

/-- What the allocator relies on for an object is not in the object. -/
theorem Placed.uses_not_payload
    (placed : Placed cache heap views loose extra)
    (prepared : Prepared cache)
    (member : v ∈ views)
    (less : i < v.records.length)
    (notGiven : ¬ ∃ u ∈ views, v.objAt cache i ∈ u.owned cache)
    (fitted : v.Fitted cache i)
    (uses : v.Uses cache i a) :
    ¬ v.Payload cache i a := by
  intro payload
  have slot := KmemCache.slot_of_payload fitted payload
  have outside : ∀ offSlab : (cache v.cache).onSlab = false,
      v.recordAt i ≤ a → a < v.recordAt i + bufctlSize → False :=
    fun offSlab =>
      placed.record_not_slot prepared member member less less slot
        (fun given => notGiven given.2) offSlab
  have word : bufctlObj < bufctlSize := by decide
  rcases uses with rfl | ⟨offSlab, rfl⟩ | ⟨_, _, rfl⟩
  · cases kind : (cache v.cache).onSlab with
    | true =>
        have first := ((placed.fits v member).onSlab kind).2.1 i less
        have inSlot :=
          (prepared.laid v.cache).slot_of_room kind v.page
            ((cache v.cache).coloff v.colorIndex) i
        rw [first] at payload
        exact absurd payload.1 (Nat.not_le.mpr inSlot.2)
    | false => exact outside kind le_rfl (by omega)
  · exact outside offSlab (by omega) (by omega)
  · exact (prepared.slot_of_front v i).2 payload

/-! ## Writing -/

/-- A slab stays as it is seen if the words that it uses stay. -/
theorem ViewFits.congr
    (fits : ViewFits cache heap v)
    (header : after.slabs v.header = heap.slabs v.header)
    (same : ∀ i < v.records.length, ∀ a, v.Uses cache i a →
      after.word a = heap.word a) :
    ViewFits cache after v where
  header := header.trans fits.header
  positive := fits.positive
  aligned := fits.aligned
  color := fits.color
  sized := fits.sized
  once := fits.once
  bound := fits.bound
  linked := by
    refine fits.linked.congr fun node member => ?_
    obtain ⟨i, free, rfl⟩ := List.mem_map.mp member
    exact same i (fits.bound i free) _ (.inl rfl)
  unlinked := fun i taken =>
    (same i taken.1 _ (.inl rfl)).trans (fits.unlinked i taken)
  stored := fun pointed i less known =>
    (same i less _ (.inr (.inr ⟨pointed, known, rfl⟩))).trans
      (fits.stored pointed i less known)
  onSlab := fits.onSlab
  offSlab := fun offSlab i less =>
    (same i less _ (.inr (.inl ⟨offSlab, rfl⟩))).trans
      (fits.offSlab offSlab i less)

/-- The slabs stay placed if the words that they use stay. -/
theorem Placed.write
    (placed : Placed cache heap views loose extra)
    (slabs : ∀ v ∈ views, after.slabs v.header = heap.slabs v.header)
    (pages : after.pages = heap.pages)
    (live : after.live = heap.live)
    (same : ∀ v ∈ views, ∀ i < v.records.length, ∀ a, v.Uses cache i a →
      after.word a = heap.word a) :
    Placed cache after views loose extra where
  fits := fun v member =>
    (placed.fits v member).congr (slabs v member) (same v member)
  pages := pages ▸ placed.pages
  apart := pages ▸ placed.apart
  headers := placed.headers
  live := live ▸ placed.live
  once := live ▸ placed.once
  owners := placed.owners
  covers := live ▸ placed.covers
  kept := placed.kept

/-- Headers are at different addresses. -/
theorem Placed.header_ne
    (placed : Placed cache heap (v :: views) loose extra)
    (member : w ∈ views) :
    w.header ≠ v.header := by
  have once := List.nodup_cons.mp placed.headers
  exact fun same => once.1 (same ▸ List.mem_map_of_mem member)

/-- An object that is given out stays with its cache when another one is. -/
theorem ObjOf.frees
    {c : Nat}
    {frees : List Nat}
    (given : ObjOf cache (v :: views) c obj)
    (still : ∀ i, v.Taken i → v.objAt cache i = obj → i ∉ frees) :
    ObjOf cache ({ v with frees } :: views) c obj := by
  obtain ⟨w, member, isCache, i, taken, at_obj⟩ := given
  rcases List.mem_cons.mp member with rfl | there
  · exact ⟨_, List.mem_cons_self, isCache, i,
      ⟨taken.1, still i taken at_obj⟩, at_obj⟩
  · exact ⟨w, List.mem_cons_of_mem _ there, isCache, i, taken, at_obj⟩

/-- Every object that is given out is loose or was given to a slab. -/
theorem Placed.covered
    (placed : Placed cache heap views loose extra)
    (member : v ∈ views)
    (taken : v.Taken i) :
    v.objAt cache i ∈ loose ++ views.flatMap (SlabView.owned cache) :=
  (placed.covers _).mp (List.mem_map_of_mem
    ((placed.live _).mpr ⟨v, member, i, taken, rfl⟩))

/-- And every such object is at a place that is given out. -/
theorem Placed.place_of_covered
    (placed : Placed cache heap views loose extra)
    (covered : obj ∈ loose ++ views.flatMap (SlabView.owned cache)) :
    ∃ v ∈ views, ∃ i, v.Taken i ∧ v.objAt cache i = obj ∧
      v.given cache i ∈ heap.live := by
  obtain ⟨x, there, rfl⟩ := List.mem_map.mp ((placed.covers obj).mpr covered)
  obtain ⟨v, member, i, taken, rfl⟩ := (placed.live x).mp there
  exact ⟨v, member, i, taken, rfl, there⟩

/-- An object that is free was not given to a slab. -/
theorem Placed.not_given
    (placed : Placed cache heap views loose extra)
    (prepared : Prepared cache)
    (member : v ∈ views)
    (free : i ∈ v.frees) :
    v.objAt cache i ∉ loose ++ views.flatMap (SlabView.owned cache) := by
  intro covered
  obtain ⟨w, other, j, taken, at_obj, _⟩ := placed.place_of_covered covered
  obtain ⟨rfl, rfl⟩ :=
    placed.objAt_unique prepared member other
      ((placed.fits v member).bound i free) taken.1 at_obj.symm
  exact taken.2 free

/-- A loose object was not given to a slab. -/
theorem Placed.not_owned_of_loose
    (placed : Placed cache heap views loose extra)
    (isLoose : obj ∈ loose) :
    ¬ ∃ u ∈ views, obj ∈ u.owned cache := by
  rintro ⟨u, member, owns⟩
  exact (placed.owner_unique member owns).1 isLoose

/-- So is an object that is free. -/
theorem Placed.not_owned_of_free
    (placed : Placed cache heap views loose extra)
    (prepared : Prepared cache)
    (member : v ∈ views)
    (free : i ∈ v.frees) :
    ¬ ∃ u ∈ views, v.objAt cache i ∈ u.owned cache := by
  rintro ⟨u, other, owns⟩
  exact placed.not_given prepared member free
    (List.mem_append_right _ (List.mem_flatMap.mpr ⟨u, other, owns⟩))

/-! ## Taking an object and putting it back -/

/-- What is free after the first free object is taken. -/
theorem ViewFits.taken_frees
    (fits : ViewFits cache heap v)
    {frees : List Nat}
    (top : v.frees = i :: frees) :
    i < v.records.length ∧ i ∉ frees ∧
      ∀ k, k ∉ frees → k = i ∨ k ∉ v.frees := by
  have once := fits.once
  rw [top, List.nodup_cons] at once
  refine ⟨fits.bound i (top ▸ List.mem_cons_self), once.1,
    fun k notFree => ?_⟩
  rw [top, List.mem_cons, not_or]
  by_cases same : k = i
  · exact .inl same
  · exact .inr ⟨same, notFree⟩

/-- A record outside the pages is not in front of an object. -/
theorem Placed.record_not_front
    (placed : Placed cache heap views loose extra)
    (prepared : Prepared cache)
    (member : v ∈ views)
    (other : w ∈ views)
    (less : i < v.records.length)
    (bound : j < w.records.length)
    (offSlab : (cache v.cache).onSlab = false)
    (above : v.recordAt i ≤ a)
    (below : a < v.recordAt i + bufctlSize) :
    a ≠ w.objAt cache j - pointerSize := by
  rintro rfl
  have front := prepared.slot_of_front w j
  exact placed.record_not_slot prepared other member bound less front.1
    (fun given => front.2 given.1) offSlab above below

/-- The word in front of an object is not the link of its record. -/
theorem Placed.record_ne_pointer
    (placed : Placed cache heap views loose extra)
    (prepared : Prepared cache)
    (member : v ∈ views)
    (less : i < v.records.length)
    (pointed : (cache v.cache).pointed) :
    v.recordAt i ≠ v.objAt cache i - pointerSize := by
  have word : 0 < pointerSize ∧ 0 < bufctlSize := by decide
  cases kind : (cache v.cache).onSlab with
  | true =>
      have aligned : (cache v.cache).align > 0 :=
        Nat.pos_of_ne_zero fun none =>
          Bool.false_ne_true ((pointed none).symm.trans kind)
      have behind := (((cache v.cache).objAt_ge v.page
        ((cache v.cache).coloff v.colorIndex) i).2 aligned).1
      rw [((placed.fits v member).onSlab kind).2.1 i less, SlabView.objAt,
        SlabView.room]
      omega
  | false =>
      exact placed.record_not_front prepared member member less less kind le_rfl
        (Nat.lt_add_of_pos_right word.2)

/-- The free objects of one slab change, and which objects are loose. -/
theorem Placed.change
    (placed : Placed cache heap (v :: views) loose extra)
    {frees loose' : List Nat}
    (fits : ViewFits cache after { v with frees })
    (slabs : ∀ w ∈ views, after.slabs w.header = heap.slabs w.header)
    (pages : after.pages = heap.pages)
    (same : ∀ w ∈ views, ∀ j < w.records.length, ∀ a, w.Uses cache j a →
      after.word a = heap.word a)
    (live : ∀ x, x ∈ after.live ↔
      (∃ i, i < v.records.length ∧ i ∉ frees ∧ x = v.given cache i) ∨
        ∃ w ∈ views, ∃ i, w.Taken i ∧ x = w.given cache i)
    (once : (after.live.map Given.obj).Nodup)
    (owners :
      (loose' ++ (v :: views).flatMap (SlabView.owned cache)).Nodup)
    (covers : ∀ obj,
      obj ∈ after.live.map Given.obj ↔
        obj ∈ loose' ++ (v :: views).flatMap (SlabView.owned cache))
    (still : ∀ i, v.Taken i →
      (∃ u ∈ v :: views, v.objAt cache i ∈ u.owned cache) → i ∉ frees) :
    Placed cache after ({ v with frees } :: views) loose' extra := by
  have keptObj : ∀ {u c obj}, u ∈ v :: views → obj ∈ u.owned cache →
      ObjOf cache (v :: views) c obj →
      ObjOf cache ({ v with frees } :: views) c obj := by
    intro u c obj member owns given
    refine given.frees fun i taken at_obj => still i taken ⟨u, member, ?_⟩
    exact at_obj ▸ owns
  have keptAll : ∀ u ∈ v :: views, (cache u.cache).onSlab = false →
      ObjOf cache ({ v with frees } :: views) slabInfoCache u.header ∧
        ∀ bctl ∈ u.records,
          ObjOf cache ({ v with frees } :: views) bufctlCache bctl := by
    intro u member offSlab
    have kept := placed.kept u member offSlab
    have owned := SlabView.owned_offSlab offSlab
    refine ⟨keptObj member (owned ▸ List.mem_cons_self) kept.1,
      fun bctl isRecord => ?_⟩
    exact keptObj member (owned ▸ List.mem_cons_of_mem _ isRecord)
      (kept.2 bctl isRecord)
  constructor
  case fits =>
    intro w member
    rcases List.mem_cons.mp member with rfl | there
    · exact fits
    · exact (placed.fits w (List.mem_cons_of_mem v there)).congr
        (slabs w there) (same w there)
  case pages =>
    rw [pages]
    exact placed.pages
  case apart => exact pages ▸ placed.apart
  case headers => exact placed.headers
  case live =>
    intro x
    rw [live x]
    simp only [List.exists_mem_cons_iff, SlabView.Taken, and_assoc]
    rfl
  case once => exact once
  case owners => exact owners
  case covers => exact covers
  case kept =>
    intro w member offSlab
    rcases List.mem_cons.mp member with rfl | there
    · exact keptAll v List.mem_cons_self offSlab
    · exact keptAll w (List.mem_cons_of_mem v there) offSlab

/-- A slab whose first free object is taken. -/
theorem ViewFits.take
    (fits : ViewFits cache heap v)
    {frees : List Nat}
    (top : v.frees = i :: frees)
    (header : after.slabs v.header = some { v with frees }.slab)
    (fitted : v.Fitted cache i)
    (link : after.word (v.recordAt i) = 0)
    (stored : (cache v.cache).pointed →
      after.word (v.objAt cache i - pointerSize) = v.recordAt i)
    (room : (cache v.cache).onSlab = false →
      after.word (v.recordAt i + bufctlObj) =
        heap.word (v.recordAt i + bufctlObj))
    (same : ∀ j < v.records.length, j ≠ i → ∀ a, v.Uses cache j a →
      after.word a = heap.word a) :
    ViewFits cache after { v with frees } := by
  obtain ⟨less, notFree, whichTaken⟩ := fits.taken_frees top
  have linked := fits.linked
  rw [top, List.map_cons] at linked
  have rest : Linked 0 after.word (heap.word (v.recordAt i))
      (frees.map v.recordAt) := by
    refine linked.pop fun node inRest => ?_
    obtain ⟨j, isFree, rfl⟩ := List.mem_map.mp inRest
    have different : j ≠ i := fun both => notFree (both ▸ isFree)
    exact same j (fits.bound j (top ▸ List.mem_cons_of_mem i isFree))
      different _ (.inl rfl)
  have first : { v with frees }.slab.objects = heap.word (v.recordAt i) := by
    rw [SlabView.slab]
    cases frees with
    | nil => exact rest.symm
    | cons j later => exact rest.head_eq.symm
  constructor
  case header => exact header
  case positive => exact fits.positive
  case aligned => exact fits.aligned
  case color => exact fits.color
  case sized => exact fits.sized
  case once => exact (List.nodup_cons.mp (top ▸ fits.once)).2
  case bound =>
    exact fun j isFree => fits.bound j (top ▸ List.mem_cons_of_mem i isFree)
  case linked =>
    rw [first]
    exact rest
  case unlinked =>
    intro j taken
    by_cases isTop : j = i
    · exact isTop ▸ link
    · have before := (whichTaken j taken.2).resolve_left isTop
      exact (same j taken.1 isTop _ (.inl rfl)).trans
        (fits.unlinked j ⟨taken.1, before⟩)
  case stored =>
    intro pointed j bound known
    by_cases isTop : j = i
    · subst isTop
      exact stored pointed
    · have before : j ∉ v.frees ∨ (cache v.cache).align = 0 :=
        known.imp_left fun notRest =>
          (whichTaken j notRest).resolve_left isTop
      exact (same j bound isTop _ (.inr (.inr ⟨pointed, before, rfl⟩))).trans
        (fits.stored pointed j bound before)
  case onSlab =>
    intro onSlab
    obtain ⟨header, rooms, eachFits⟩ := fits.onSlab onSlab
    refine ⟨header, rooms, fun j taken => ?_⟩
    by_cases isTop : j = i
    · exact isTop ▸ fitted
    · exact eachFits j ⟨taken.1, (whichTaken j taken.2).resolve_left isTop⟩
  case offSlab =>
    intro offSlab j bound
    have before := fits.offSlab offSlab j bound
    by_cases isTop : j = i
    · subst isTop
      exact (room offSlab).trans before
    · exact (same j bound isTop _ (.inr (.inl ⟨offSlab, rfl⟩))).trans before

/-- The first free object is taken, with its words changed only. -/
theorem Placed.take
    (placed : Placed cache heap (v :: views) loose extra)
    (prepared : Prepared cache)
    {frees : List Nat}
    (top : v.frees = i :: frees)
    (slabs : after.slabs =
      Function.update heap.slabs v.header (some { v with frees }.slab))
    (pages : after.pages = heap.pages)
    (live : after.live = v.given cache i :: heap.live)
    (fitted : v.Fitted cache i)
    (link : after.word (v.recordAt i) = 0)
    (stored : (cache v.cache).pointed →
      after.word (v.objAt cache i - pointerSize) = v.recordAt i)
    (same : ∀ a, a ≠ v.recordAt i → a ≠ v.objAt cache i - pointerSize →
      ¬ v.Payload cache i a → after.word a = heap.word a) :
    Placed cache after ({ v with frees } :: views)
      (v.objAt cache i :: loose) extra := by
  have here : v ∈ v :: views := List.mem_cons_self
  have fits := placed.fits v here
  obtain ⟨less, notFree, whichTaken⟩ := fits.taken_frees top
  have free : i ∈ v.frees := top ▸ List.mem_cons_self
  have notCovered := placed.not_given prepared here free
  have notGiven := placed.not_owned_of_free prepared here free
  -- what is used for any other object stays
  have kept : ∀ w ∈ v :: views, ∀ j < w.records.length, ¬ (v = w ∧ i = j) →
      ∀ a, w.Uses cache j a → after.word a = heap.word a := by
    intro w member j bound different a uses
    obtain ⟨notRecord, notPointer, notPayload⟩ :=
      placed.uses_apart prepared here member less bound different notGiven
        fitted uses
    exact same a notRecord notPointer notPayload
  have word : bufctlObj < bufctlSize ∧ 0 < bufctlObj := by decide
  refine placed.change ?_ ?_ pages ?_ ?_ ?_ ?_ ?_ ?_
  · refine fits.take top (by rw [slabs, Function.update_self]) fitted link
      stored (fun offSlab => same _ (by omega) ?_ ?_)
      fun j bound isTop => kept v here j bound fun both => isTop both.2.symm
    · exact placed.record_not_front prepared here here less less offSlab
        (by omega) (by omega)
    · exact placed.uses_not_payload prepared here less notGiven fitted
        (.inr (.inl ⟨offSlab, rfl⟩))
  · intro w member
    rw [slabs, Function.update_of_ne (placed.header_ne member)]
  · intro w member j bound
    refine kept w (List.mem_cons_of_mem v member) j bound fun both => ?_
    exact placed.header_ne member (both.1 ▸ rfl)
  · intro x
    rw [live, List.mem_cons, placed.live x]
    simp only [List.exists_mem_cons_iff, SlabView.Taken, and_assoc]
    rw [← or_assoc]
    refine or_congr_left ⟨?_, ?_⟩
    · rintro (rfl | ⟨k, bound, notFree', rfl⟩)
      · exact ⟨i, less, notFree, rfl⟩
      · refine ⟨k, bound, fun isFree => notFree' ?_, rfl⟩
        exact top ▸ List.mem_cons_of_mem i isFree
    · rintro ⟨k, bound, notFree', rfl⟩
      rcases whichTaken k notFree' with rfl | before
      · exact .inl rfl
      · exact .inr ⟨k, bound, before, rfl⟩
  · rw [live, List.map_cons, List.nodup_cons]
    exact ⟨fun again => notCovered ((placed.covers _).mp again), placed.once⟩
  · rw [List.cons_append, List.nodup_cons]
    exact ⟨notCovered, placed.owners⟩
  · intro obj
    rw [live, List.map_cons, List.mem_cons, List.cons_append, List.mem_cons,
      placed.covers obj]
    rfl
  · exact fun k taken _ isFree => taken.2 (top ▸ List.mem_cons_of_mem i isFree)

/-- A record is not at the null address. -/
theorem Placed.record_ne_zero
    (placed : Placed cache heap views loose extra)
    (prepared : Prepared cache)
    (member : v ∈ views)
    (less : i < v.records.length) :
    v.recordAt i ≠ 0 := by
  have fits := placed.fits v member
  have positive := fits.positive
  cases kind : (cache v.cache).onSlab with
  | true =>
      rw [(fits.onSlab kind).2.1 i less, SlabView.room, KmemCache.room]
      omega
  | false =>
      obtain ⟨w, other, j, taken, at_record, _⟩ :=
        placed.record_payload prepared member less kind le_rfl
          (Nat.lt_add_of_pos_right (by decide))
      have fits' := placed.fits w other
      have inside :=
        (prepared.laid w.cache).objAt_inside fits'.aligned fits'.color
          (fits'.sized ▸ taken.1)
      rw [← at_record, SlabView.objAt]
      have word : 0 < pointerSize := by decide
      omega

/-- An object is put back in front of the free ones. -/
theorem ViewFits.put
    (fits : ViewFits cache heap v)
    (taken : v.Taken i)
    (header : after.slabs v.header =
      some { v with frees := i :: v.frees }.slab)
    (notNull : v.recordAt i ≠ 0)
    (link : after.word (v.recordAt i) = v.slab.objects)
    (other : ∀ a, a ≠ v.recordAt i → v.Uses cache i a →
      after.word a = heap.word a)
    (pointer : (cache v.cache).pointed →
      v.objAt cache i - pointerSize ≠ v.recordAt i)
    (same : ∀ j < v.records.length, j ≠ i → ∀ a, v.Uses cache j a →
      after.word a = heap.word a) :
    ViewFits cache after { v with frees := i :: v.frees } := by
  have notFree : ∀ j, j ∉ i :: v.frees → j ≠ i ∧ j ∉ v.frees :=
    fun j notThere => not_or.mp (List.mem_cons.not.mp notThere)
  constructor
  case header => exact header
  case positive => exact fits.positive
  case aligned => exact fits.aligned
  case color => exact fits.color
  case sized => exact fits.sized
  case once => exact List.nodup_cons.mpr ⟨taken.2, fits.once⟩
  case bound =>
    intro j isFree
    rcases List.mem_cons.mp isFree with rfl | there
    · exact taken.1
    · exact fits.bound j there
  case linked =>
    refine fits.linked.push notNull link fun node inRest => ?_
    obtain ⟨j, isFree, rfl⟩ := List.mem_map.mp inRest
    have different : j ≠ i := fun both => taken.2 (both ▸ isFree)
    exact same j (fits.bound j isFree) different _ (.inl rfl)
  case unlinked =>
    intro j still
    have before := notFree j still.2
    exact (same j still.1 before.1 _ (.inl rfl)).trans
      (fits.unlinked j ⟨still.1, before.2⟩)
  case stored =>
    intro pointed j bound known
    by_cases isObj : j = i
    · subst isObj
      refine (other _ (pointer pointed) ?_).trans
        (fits.stored pointed j bound (.inl taken.2))
      exact .inr (.inr ⟨pointed, .inl taken.2, rfl⟩)
    · have before : j ∉ v.frees ∨ (cache v.cache).align = 0 :=
        known.imp_left fun still => (notFree j still).2
      exact (same j bound isObj _ (.inr (.inr ⟨pointed, before, rfl⟩))).trans
        (fits.stored pointed j bound before)
  case onSlab =>
    intro onSlab
    obtain ⟨header, rooms, eachFits⟩ := fits.onSlab onSlab
    exact ⟨header, rooms, fun j still =>
      eachFits j ⟨still.1, (notFree j still.2).2⟩⟩
  case offSlab =>
    intro offSlab j bound
    have before := fits.offSlab offSlab j bound
    have word : bufctlObj ≠ 0 := by decide
    by_cases isObj : j = i
    · subst isObj
      exact (other _ (by omega) (.inr (.inl ⟨offSlab, rfl⟩))).trans before
    · exact (same j bound isObj _ (.inr (.inl ⟨offSlab, rfl⟩))).trans before

/-- A loose object is put back, with its words changed only. -/
theorem Placed.put
    (placed : Placed cache heap (v :: views) (v.objAt cache i :: loose) extra)
    (prepared : Prepared cache)
    (taken : v.Taken i)
    (slabs : after.slabs =
      Function.update heap.slabs v.header
        (some { v with frees := i :: v.frees }.slab))
    (pages : after.pages = heap.pages)
    (live : after.live =
      heap.live.filter fun given => given.obj ≠ v.objAt cache i)
    (link : after.word (v.recordAt i) = v.slab.objects)
    (same : ∀ a, a ≠ v.recordAt i → ¬ v.Payload cache i a →
      after.word a = heap.word a) :
    Placed cache after ({ v with frees := i :: v.frees } :: views) loose
      extra := by
  have here : v ∈ v :: views := List.mem_cons_self
  have fits := placed.fits v here
  have isLoose := List.nodup_cons.mp placed.owners
  have notGiven := placed.not_owned_of_loose List.mem_cons_self
  have fitted : v.Fitted cache i := by
    intro onSlab
    exact (fits.onSlab onSlab).2.2 i taken onSlab
  have kept : ∀ w ∈ v :: views, ∀ j < w.records.length, ¬ (v = w ∧ i = j) →
      ∀ a, w.Uses cache j a → after.word a = heap.word a := by
    intro w member j bound different a uses
    obtain ⟨notRecord, _, notPayload⟩ :=
      placed.uses_apart prepared here member taken.1 bound different notGiven
        fitted uses
    exact same a notRecord notPayload
  have liveObj : ∀ obj, obj ∈ after.live.map Given.obj ↔
      obj ∈ heap.live.map Given.obj ∧ obj ≠ v.objAt cache i := by
    intro obj
    rw [live]
    simp only [List.mem_map, List.mem_filter, decide_eq_true_eq]
    constructor
    · rintro ⟨x, ⟨there, different⟩, rfl⟩
      exact ⟨⟨x, there, rfl⟩, different⟩
    · rintro ⟨⟨x, there, rfl⟩, different⟩
      exact ⟨x, ⟨there, different⟩, rfl⟩
  refine placed.change ?_ ?_ pages ?_ ?_ ?_ ?_ ?_ ?_
  · refine fits.put taken (by rw [slabs, Function.update_self])
      (placed.record_ne_zero prepared here taken.1) link ?_ ?_
      fun j bound isObj => kept v here j bound fun both => isObj both.2.symm
    · intro a notRecord uses
      exact same a notRecord
        (placed.uses_not_payload prepared here taken.1 notGiven fitted uses)
    · exact fun pointed =>
        (placed.record_ne_pointer prepared here taken.1 pointed).symm
  · intro w member
    rw [slabs, Function.update_of_ne (placed.header_ne member)]
  · intro w member j bound
    refine kept w (List.mem_cons_of_mem v member) j bound fun both => ?_
    exact placed.header_ne member (both.1 ▸ rfl)
  · intro x
    rw [live, List.mem_filter, placed.live x]
    simp only [List.exists_mem_cons_iff, decide_eq_true_eq]
    constructor
    · rintro ⟨⟨k, taken', rfl⟩ | there, different⟩
      · refine .inl ⟨k, taken'.1, fun isFree => ?_, rfl⟩
        rcases List.mem_cons.mp isFree with rfl | before
        · exact different rfl
        · exact taken'.2 before
      · exact .inr there
    · rintro (⟨k, bound, notFree, rfl⟩ | ⟨w, member, k, taken', rfl⟩)
      · have before := not_or.mp (List.mem_cons.not.mp notFree)
        refine ⟨.inl ⟨k, ⟨bound, before.2⟩, rfl⟩, fun at_obj => before.1 ?_⟩
        exact (placed.objAt_unique prepared here here bound taken.1 at_obj).2
      · refine ⟨.inr ⟨w, member, k, taken', rfl⟩, fun at_obj => ?_⟩
        have there := List.mem_cons_of_mem v member
        have unique :=
          placed.objAt_unique prepared there here taken'.1 taken.1 at_obj
        exact placed.header_ne member (unique.1 ▸ rfl)
  · rw [live]
    exact (List.filter_sublist.map _).nodup placed.once
  · exact isLoose.2
  · intro obj
    rw [liveObj, placed.covers, List.cons_append, List.mem_cons]
    constructor
    · rintro ⟨isObj | rest, different⟩
      · exact absurd isObj different
      · exact rest
    · exact fun rest => ⟨.inr rest, fun isObj => isLoose.1 (isObj ▸ rest)⟩
  · intro k taken' given isFree
    rcases List.mem_cons.mp isFree with rfl | before
    · exact notGiven given
    · exact taken'.2 before

/-! ## Slabs and page clusters that come and go -/

/-- Clusters that have a page in common are the same. -/
theorem Placed.pages_unique
    (placed : Placed cache heap views loose extra)
    {pages others : SlabPages}
    (here : pages ∈ heap.pages)
    (there : others ∈ heap.pages)
    (holds : pages.Holds a)
    (too : others.Holds a) :
    pages = others := by
  by_contra different
  have apart := placed.apart.forall here there different
  rw [SlabPages.Apart] at apart
  rw [SlabPages.Holds] at holds too
  omega

/-- A cluster holds its first address. -/
theorem SlabPages.holds_kaddr
    (pages : SlabPages) :
    pages.Holds pages.kaddr := by
  refine ⟨le_rfl, Nat.lt_add_of_pos_right ?_⟩
  rw [Nat.shiftLeft_eq]
  exact Nat.mul_pos (by decide) (Nat.two_pow_pos _)

/-- The page clusters are different ones. -/
theorem Placed.pages_nodup
    (placed : Placed cache heap views loose extra) :
    (extra ++ views.map (SlabView.pages cache)).Nodup := by
  refine placed.pages.nodup (placed.apart.imp fun {pages others} apart => ?_)
  rintro rfl
  have bytes := pages.holds_kaddr.2
  rw [SlabPages.Apart] at apart
  omega

/-- A slab without an object that is given out becomes loose. -/
theorem Placed.detach
    (placed : Placed cache heap (v :: views) loose extra)
    (allFree : ∀ i, ¬ v.Taken i) :
    Placed cache heap views (v.owned cache ++ loose)
      (v.pages cache :: extra) := by
  have keptObj : ∀ {c obj}, ObjOf cache (v :: views) c obj →
      ObjOf cache views c obj := by
    rintro c obj ⟨w, member, isCache, i, taken, at_obj⟩
    rcases List.mem_cons.mp member with rfl | there
    · exact absurd taken (allFree i)
    · exact ⟨w, there, isCache, i, taken, at_obj⟩
  have owners :
      (loose ++ (v :: views).flatMap (SlabView.owned cache)).Perm
        (v.owned cache ++ loose ++ views.flatMap (SlabView.owned cache)) := by
    rw [List.flatMap_cons, ← List.append_assoc]
    exact List.perm_append_comm.append_right _
  constructor
  case fits =>
    exact fun w member => placed.fits w (List.mem_cons_of_mem v member)
  case pages =>
    refine placed.pages.trans ?_
    rw [List.map_cons]
    exact List.perm_middle
  case apart => exact placed.apart
  case headers => exact (List.nodup_cons.mp placed.headers).2
  case live =>
    intro x
    rw [placed.live x]
    simp only [List.exists_mem_cons_iff]
    refine or_iff_right ?_
    rintro ⟨i, taken, _⟩
    exact allFree i taken
  case once => exact placed.once
  case owners => exact owners.nodup placed.owners
  case covers => exact fun obj => (placed.covers obj).trans owners.mem_iff
  case kept =>
    intro w member offSlab
    have kept := placed.kept w (List.mem_cons_of_mem v member) offSlab
    exact ⟨keptObj kept.1, fun bctl isRecord => keptObj (kept.2 bctl isRecord)⟩

/-- A slab with all objects free is made of a cluster and of loose objects. -/
theorem Placed.attach
    (placed : Placed cache heap views (v.owned cache ++ loose)
      (v.pages cache :: extra))
    (fits : ViewFits cache after v)
    (allFree : ∀ i, ¬ v.Taken i)
    (fresh : v.header ∉ views.map SlabView.header)
    (slabs : ∀ w ∈ views, after.slabs w.header = heap.slabs w.header)
    (pages : after.pages = heap.pages)
    (live : after.live = heap.live)
    (same : ∀ w ∈ views, ∀ j < w.records.length, ∀ a, w.Uses cache j a →
      after.word a = heap.word a)
    (kept : (cache v.cache).onSlab = false →
      ObjOf cache views slabInfoCache v.header ∧
        ∀ bctl ∈ v.records, ObjOf cache views bufctlCache bctl) :
    Placed cache after (v :: views) loose extra := by
  have keptObj : ∀ {c obj}, ObjOf cache views c obj →
      ObjOf cache (v :: views) c obj := by
    rintro c obj ⟨w, member, given⟩
    exact ⟨w, List.mem_cons_of_mem v member, given⟩
  have written := placed.write slabs pages live same
  have owners :
      (v.owned cache ++ loose ++ views.flatMap (SlabView.owned cache)).Perm
        (loose ++ (v :: views).flatMap (SlabView.owned cache)) := by
    rw [List.flatMap_cons, ← List.append_assoc]
    exact List.perm_append_comm.append_right _
  constructor
  case fits =>
    intro w member
    rcases List.mem_cons.mp member with rfl | there
    · exact fits
    · exact written.fits w there
  case pages =>
    refine written.pages.trans ?_
    rw [List.map_cons]
    exact List.perm_middle.symm
  case apart => exact written.apart
  case headers => exact List.nodup_cons.mpr ⟨fresh, placed.headers⟩
  case live =>
    intro x
    rw [written.live x]
    simp only [List.exists_mem_cons_iff]
    refine (or_iff_right ?_).symm
    rintro ⟨i, taken, _⟩
    exact allFree i taken
  case once => exact written.once
  case owners => exact owners.nodup placed.owners
  case covers => exact fun obj => (written.covers obj).trans owners.mem_iff
  case kept =>
    intro w member offSlab
    rcases List.mem_cons.mp member with rfl | there
    · have kept := kept offSlab
      exact ⟨keptObj kept.1,
        fun bctl isRecord => keptObj (kept.2 bctl isRecord)⟩
    · have kept := placed.kept w there offSlab
      exact ⟨keptObj kept.1,
        fun bctl isRecord => keptObj (kept.2 bctl isRecord)⟩

/-- The page clusters without a slab change. -/
theorem Placed.repage
    (placed : Placed cache heap views loose extra)
    {extra' : List SlabPages}
    (word : after.word = heap.word)
    (slabs : ∀ v ∈ views, after.slabs v.header = heap.slabs v.header)
    (live : after.live = heap.live)
    (pages : after.pages.Perm (extra' ++ views.map (SlabView.pages cache)))
    (apart : after.pages.Pairwise SlabPages.Apart) :
    Placed cache after views loose extra' where
  fits := fun v member =>
    (placed.fits v member).congr (slabs v member)
      fun _ _ _ _ => congrFun word _
  pages := pages
  apart := apart
  headers := placed.headers
  live := live ▸ placed.live
  once := live ▸ placed.once
  owners := placed.owners
  covers := live ▸ placed.covers
  kept := placed.kept

end Words

end RiscvWorkshop.PageSlab
