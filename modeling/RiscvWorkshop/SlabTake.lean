import Mathlib
import RiscvWorkshop.SlabFree

namespace RiscvWorkshop.PageSlab

open Pfdb
open Kmem

/-!
# Taking an object

The first free record of a slab on the partial queue is taken off its list, the
place of its object is computed and the record is remembered in front of the
object.  A slab without another free object moves to the full queue.
-/

/--
The slabs of a cache are on its queues, where one is seen on the partial queue
before its objects are.
-/
structure OnPartial
    (cache : KmemCache)
    (state : CacheState)
    (v : SlabView)
    (rest : List SlabView) : Prop where
  lined : ∀ queue, (state.que queue).Perm
    ((if queue = .onPartial then [v.header] else []) ++
      (rest.filter (SlabView.isOn v.cache queue)).map SlabView.header)
  counted : state.slabCount = (v :: rest).countP fun w => w.cache = v.cache
  color : state.colorIndex < cache.colors

section Queues

variable {cache : KmemCache}
variable {state : CacheState}
variable {v : SlabView}
variable {rest : List SlabView}

/-- A slab that belongs on the partial queue. -/
theorem Queued.onPartial
    (queued : Queued cache v.cache state (v :: rest))
    (isPartial : v.queue = .onPartial) :
    OnPartial cache state v rest where
  lined := by
    intro queue
    have lined := queued.lined queue
    by_cases same : queue = .onPartial
    · rw [List.filter_cons_of_pos (SlabView.isOn_iff.mpr
        ⟨rfl, isPartial.trans same.symm⟩), List.map_cons] at lined
      rw [if_pos same]
      exact lined
    · rw [List.filter_cons_of_neg fun isOn =>
        same ((SlabView.isOn_iff.mp isOn).2.symm.trans isPartial)] at lined
      rw [if_neg same]
      exact lined
  counted := queued.counted
  color := queued.color

/-- A slab that was on no queue is put on the partial queue. -/
theorem Queued.addPartial
    (queued : Queued cache v.cache state rest) :
    OnPartial cache
      { state with
        partialQue := state.partialQue ++ [v.header]
        slabCount := state.slabCount + 1 }
      v rest where
  lined := by
    intro queue
    have lined := queued.lined queue
    cases queue with
    | onPartial =>
        exact (List.perm_append_singleton _ _).trans (lined.cons v.header)
    | onFull => exact lined
    | onFree => exact lined
  counted := by
    rw [List.countP_cons_of_pos (by simp)]
    exact congrArg (· + 1) queued.counted
  color := queued.color

/-- A slab that keeps a free object stays on the partial queue. -/
theorem OnPartial.stay
    (onPartial : OnPartial cache state v rest)
    {w : SlabView}
    (sameCache : w.cache = v.cache)
    (sameHeader : w.header = v.header)
    (isPartial : w.queue = .onPartial) :
    Queued cache v.cache state (w :: rest) where
  lined := by
    intro queue
    have lined := onPartial.lined queue
    by_cases same : queue = .onPartial
    · rw [if_pos same] at lined
      rw [List.filter_cons_of_pos (SlabView.isOn_iff.mpr
        ⟨sameCache, isPartial.trans same.symm⟩), List.map_cons, sameHeader]
      exact lined
    · rw [if_neg same] at lined
      rw [List.filter_cons_of_neg fun isOn =>
        same ((SlabView.isOn_iff.mp isOn).2.symm.trans isPartial)]
      exact lined
  counted := by
    have counted := onPartial.counted
    rw [List.countP_cons_of_pos (by simp)] at counted
    rw [List.countP_cons_of_pos (by simpa using sameCache)]
    exact counted
  color := onPartial.color

/-- A slab without another free object moves to the full queue. -/
theorem OnPartial.fill
    (onPartial : OnPartial cache state v rest)
    {w : SlabView}
    (sameCache : w.cache = v.cache)
    (sameHeader : w.header = v.header)
    (isFull : w.queue = .onFull) :
    Queued cache v.cache
      { state with
        partialQue := state.partialQue.erase v.header
        fullQue := state.fullQue ++ [v.header] }
      (w :: rest) where
  lined := by
    intro queue
    have lined := onPartial.lined queue
    have onFull : w.isOn v.cache .onFull = true :=
      SlabView.isOn_iff.mpr ⟨sameCache, isFull⟩
    cases queue with
    | onPartial =>
        rw [List.filter_cons_of_neg fun isOn => SlabQueue.noConfusion
          (isFull.symm.trans (SlabView.isOn_iff.mp isOn).2)]
        refine (lined.erase v.header).trans (.of_eq ?_)
        exact List.erase_cons_head ..
    | onFull =>
        rw [List.filter_cons_of_pos onFull, List.map_cons, sameHeader]
        exact (List.perm_append_singleton _ _).trans (lined.cons v.header)
    | onFree =>
        rw [List.filter_cons_of_neg fun isOn => SlabQueue.noConfusion
          (isFull.symm.trans (SlabView.isOn_iff.mp isOn).2)]
        exact lined
  counted := by
    have counted := onPartial.counted
    rw [List.countP_cons_of_pos (by simp)] at counted
    rw [List.countP_cons_of_pos (by simpa using sameCache)]
    exact counted
  color := onPartial.color

end Queues

/-- A slab whose first free object is taken. -/
def SlabView.take (v : SlabView) : SlabView :=
  { v with frees := v.frees.tail }

/-- The queue of a slab after one of its objects is taken. -/
theorem ViewFits.queue_take
    {cache : Nat → KmemCache}
    {heap : Heap}
    {v : SlabView}
    {i : Nat}
    {frees : List Nat}
    (fits : ViewFits cache heap v)
    (top : v.frees = i :: frees) :
    v.take.queue =
      if v.count + 1 = (cache v.cache).objsPerSlab then .onFull
      else .onPartial := by
  have lengths := fits.frees_le
  have tail : v.take.frees = frees := by
    rw [SlabView.take, top, List.tail_cons]
  have records : v.take.records.length = v.records.length := rfl
  rw [top, List.length_cons] at lengths
  rw [SlabView.queue, SlabView.count, tail, records, top, List.length_cons,
    ← fits.sized]
  cases frees with
  | nil =>
      rw [List.length_nil] at lengths
      rw [if_pos rfl, if_pos (by rw [List.length_nil]; omega)]
  | cons j later =>
      rw [List.length_cons] at lengths
      rw [if_neg (List.cons_ne_nil j later), List.length_cons,
        if_neg (by omega), if_neg (by omega)]

/-! ## The object -/

namespace Heap

/-- The words after a record is remembered in front of its object. -/
def marked (heap : Heap) (cache : KmemCache) (obj bctl : Nat) : Heap :=
  (if cache.align > 0 then
    heap.store (truncateAlign (obj - pointerSize) pointerSize) bctl
  else
    heap).call cache.constructor obj cache.payloadSize

variable {heap middle after : Heap}
variable {cache : KmemCache}
variable {sinfo : Slab}
variable {h obj bctl a : Nat}

/-- `alloc_slab_obj`, from the record that `slist_get_top` returns. -/
theorem allocSlabObj_eq_some
    (top : heap.slistGetTop h = some (bctl, middle))
    (result : heap.allocSlabObj cache h = some (obj, after)) :
    obj =
        cache.alignObj
          (if cache.onSlab then bctl + sBufctlSize
          else middle.word (bctl + bufctlObj)) ∧
      ¬ (cache.onSlab ∧
        cache.objSize < (obj + cache.payloadSize - bctl) % sizeLimit) ∧
      after =
        { middle.marked cache obj bctl with
          live := { obj, bufctl := bctl } :: (middle.marked cache obj bctl).live } := by
  rw [allocSlabObj, top] at result
  dsimp only at result
  generalize cache.alignObj
    (if cache.onSlab then bctl + sBufctlSize
    else middle.word (bctl + bufctlObj)) = found at result
  split at result
  · cases result
  · next passes =>
    obtain ⟨rfl, rfl⟩ := Prod.mk.inj (Option.some.inj result)
    exact ⟨rfl, passes, rfl⟩

@[simp]
theorem marked_slabs :
    (heap.marked cache obj bctl).slabs = heap.slabs := by
  rw [marked, call_slabs]
  split_ifs <;> rfl

@[simp]
theorem marked_pages :
    (heap.marked cache obj bctl).pages = heap.pages := by
  rw [marked, call_pages]
  split_ifs <;> rfl

@[simp]
theorem marked_live :
    (heap.marked cache obj bctl).live = heap.live := by
  rw [marked, call_live]
  split_ifs <;> rfl

/-- Only the pointer in front of the object and the object are written. -/
theorem marked_word
    (words : pointerSize ∣ obj)
    (notPointer : cache.align > 0 → a ≠ obj - pointerSize)
    (outside : ¬ (obj ≤ a ∧ a < obj + cache.payloadSize)) :
    (heap.marked cache obj bctl).word a = heap.word a := by
  have whole : truncateAlign (obj - pointerSize) pointerSize =
      obj - pointerSize :=
    Nat.div_mul_cancel (Nat.dvd_sub words (Nat.dvd_refl _))
  rw [marked, call_word _ _ outside]
  split_ifs with aligned
  · rw [store_word, whole, Function.update_of_ne (notPointer aligned)]
  · rfl

/-- An aligned object has the pointer to its record in front of it. -/
theorem marked_pointer
    (words : pointerSize ∣ obj)
    (positive : 0 < obj)
    (aligned : cache.align > 0) :
    (heap.marked cache obj bctl).word (obj - pointerSize) = bctl := by
  have whole : truncateAlign (obj - pointerSize) pointerSize =
      obj - pointerSize :=
    Nat.div_mul_cancel (Nat.dvd_sub words (Nat.dvd_refl _))
  have size : 0 < pointerSize := by decide
  rw [marked, call_word _ _ (by omega), if_pos aligned, store_word, whole,
    Function.update_self]

end Heap

section Take

variable {m after : Memory}
variable {v : SlabView}
variable {rest : List SlabView}
variable {loose : List Nat}
variable {extra : List SlabPages}
variable {frees : List Nat}
variable {i obj c h : Nat}
variable {clear : Bool}

/-- `slab_kmem_cache_alloc` from the count of the slab on. -/
theorem Memory.allocFrom_eq_some
    {sinfo : Slab}
    (header : m.heap.slabs h = some sinfo)
    (result : m.allocFrom c h clear = some (obj, after)) :
    ∃ heap,
      (m.heap.setSlab h { sinfo with count := sinfo.count + 1 }).allocSlabObj
        (m.cache c) h = some (obj, heap) ∧
      after =
        { m with
          state :=
            if sinfo.count + 1 = (m.cache c).objsPerSlab then
              Function.update m.state c
                { m.state c with
                  partialQue := (m.state c).partialQue.erase h
                  fullQue := (m.state c).fullQue ++ [h] }
            else
              m.state
          heap :=
            if clear then heap.fill obj (m.cache c).payloadSize fun _ => 0
            else heap } := by
  rw [Memory.allocFrom, header] at result
  by_cases full : sinfo.count + 1 = (m.cache c).objsPerSlab
  · simp only [if_pos full, Memory.setState_heap] at result
    split at result
    · cases result
    · next found heap made =>
      obtain ⟨rfl, rfl⟩ := Prod.mk.inj (Option.some.inj result)
      exact ⟨heap, made, by rw [if_pos full]; rfl⟩
  · simp only [if_neg full] at result
    split at result
    · cases result
    · next found heap made =>
      obtain ⟨rfl, rfl⟩ := Prod.mk.inj (Option.some.inj result)
      exact ⟨heap, made, by rw [if_neg full]⟩

/-- The header after the first free object is taken. -/
theorem ViewFits.slab_take
    {cache : Nat → KmemCache}
    {heap : Heap}
    (fits : ViewFits cache heap v)
    (top : v.frees = i :: frees) :
    { v.slab with
        count := v.slab.count + 1
        objects := heap.word v.slab.objects } =
      v.take.slab := by
  have lengths := fits.frees_le
  have linked := fits.linked
  rw [top, List.length_cons] at lengths
  rw [top, List.map_cons] at linked
  have objects : v.take.slab.objects = heap.word v.slab.objects := by
    have rest := linked.2.2
    rw [← linked.head_eq] at rest
    rw [SlabView.slab, SlabView.take, top, List.tail_cons]
    cases frees with
    | nil => exact rest.symm
    | cons j later => exact rest.head_eq.symm
  have count : v.take.count = v.slab.count + 1 := by
    change v.records.length - v.frees.tail.length =
      v.records.length - v.frees.length + 1
    rw [top, List.tail_cons, List.length_cons]
    omega
  rw [← objects, ← count]
  rfl

/-- Objects of slabs are at whole words. -/
theorem ViewFits.words_objAt
    {cache : Nat → KmemCache}
    {heap : Heap}
    (fits : ViewFits cache heap v)
    (laid : Laid (cache v.cache))
    (i : Nat) :
    pointerSize ∣ v.objAt cache i := by
  refine laid.words_objAt ?_ ?_ i
  · refine .trans ?_ fits.aligned
    rw [KmemCache.slabBytes, Nat.shiftLeft_eq]
    exact Nat.dvd_mul_right_of_dvd (by decide) _
  · rw [KmemCache.coloff]
    split_ifs
    · exact laid.colorWords.mul_right _
    · exact Nat.dvd_zero _

/-- What the assertion of `alloc_slab_obj` checks. -/
theorem Laid.fitted_of_assert
    {cache : KmemCache}
    {page coloff : Nat}
    (laid : Laid cache)
    (passes : ¬ (cache.onSlab ∧
      cache.objSize <
        (cache.objAt page coloff i + cache.payloadSize -
          cache.room page coloff i) % sizeLimit)) :
    cache.Fitted page coloff i := by
  intro onSlab
  have rooms := laid.onSlab onSlab
  have behind := (cache.objAt_ge page coloff i).1
  have most := rooms.objAt_le page coloff i
  have size : cache.objSize ≤ pageSize - slabSize :=
    (Nat.le_mul_of_pos_left _ laid.objs).trans rooms.header
  have payload := rooms.payload
  have word : pointerSize < slabSize := by decide
  have pages : pageSize + pageSize < sizeLimit := by decide
  have within : ¬ cache.objSize <
      (cache.objAt page coloff i + cache.payloadSize -
        cache.room page coloff i) % sizeLimit :=
    fun more => passes ⟨onSlab, more⟩
  rw [Nat.mod_eq_of_lt (by omega)] at within
  omega

/-- The place that is computed from a record is the place of its object. -/
theorem ViewFits.objAt_eq
    {cache : Nat → KmemCache}
    {heap : Heap}
    (fits : ViewFits cache heap v)
    (less : i < v.records.length) :
    (cache v.cache).alignObj
        (if (cache v.cache).onSlab then v.recordAt i + sBufctlSize
        else heap.word (v.recordAt i + bufctlObj)) =
      v.objAt cache i := by
  rw [SlabView.objAt, KmemCache.objAt]
  congr 1
  split_ifs with kind
  · rw [(fits.onSlab kind).2.1 i less]
    rfl
  · exact fits.offSlab (Bool.eq_false_iff.mpr kind) i less

/-- The words, headers and objects after the first free object is taken. -/
structure TakenFrom
    (cache : Nat → KmemCache)
    (heap after : Heap)
    (v : SlabView)
    (i : Nat) : Prop where
  fitted : v.Fitted cache i
  apart : ¬ v.Payload cache i (v.recordAt i)
  slabs : after.slabs = Function.update heap.slabs v.header (some v.take.slab)
  pages : after.pages = heap.pages
  live : after.live = v.given cache i :: heap.live
  link : after.word (v.recordAt i) = 0
  stored : (cache v.cache).pointed →
    after.word (v.objAt cache i - pointerSize) = v.recordAt i
  same : ∀ a, a ≠ v.recordAt i → a ≠ v.objAt cache i - pointerSize →
    ¬ v.Payload cache i a → after.word a = heap.word a

/-- `alloc_slab_obj` takes the first free object of a slab. -/
theorem Placed.allocSlabObj_spec
    {cache : Nat → KmemCache}
    {heap after : Heap}
    (placed : Placed cache heap (v :: rest) loose extra)
    (prepared : Prepared cache)
    (top : v.frees = i :: frees)
    (result :
      (heap.setSlab v.header
          { v.slab with count := v.slab.count + 1 }).allocSlabObj
        (cache v.cache) v.header = some (obj, after)) :
    obj = v.objAt cache i ∧ TakenFrom cache heap after v i := by
  have here : v ∈ v :: rest := List.mem_cons_self
  have fits := placed.fits v here
  have laid := prepared.laid v.cache
  have less := (fits.taken_frees top).1
  have objects : v.slab.objects = v.recordAt i := by
    rw [SlabView.slab, top]
    rfl
  have notNull :
      ({ v.slab with count := v.slab.count + 1 } : Slab).objects ≠ 0 :=
    objects ▸ placed.record_ne_zero prepared here less
  have popped :
      (heap.setSlab v.header
          { v.slab with count := v.slab.count + 1 }).slistGetTop v.header =
        some (v.recordAt i,
          (heap.store (v.recordAt i) 0).setSlab v.header v.take.slab) := by
    refine (Heap.slistGetTop_setSlab heap v.header notNull).trans ?_
    rw [← fits.slab_take top, objects]
  obtain ⟨isObj, passes, rfl⟩ := Heap.allocSlabObj_eq_some popped result
  -- the address of the object is not in the link of its record
  have apart : v.recordAt i + bufctlObj ≠ v.recordAt i := by
    rw [bufctlObj]
    omega
  rw [Heap.setSlab_word, Heap.store_word, Function.update_of_ne apart,
    fits.objAt_eq less] at isObj
  subst isObj
  have inside := laid.objAt_inside fits.aligned fits.color (fits.sized ▸ less)
  have positive : 0 < v.objAt cache i :=
    fits.positive.trans_le ((Nat.le_add_right _ _).trans inside.1)
  have words := fits.words_objAt laid i
  have free : i ∈ v.frees := top ▸ List.mem_cons_self
  have notGiven := placed.not_owned_of_free prepared here free
  have fitted : v.Fitted cache i := by
    refine fun onSlab => laid.fitted_of_assert ?_ onSlab
    rw [(fits.onSlab onSlab).2.1 i less] at passes
    exact passes
  have outside : ¬ v.Payload cache i (v.recordAt i) :=
    placed.uses_not_payload prepared here less notGiven fitted (.inl rfl)
  have apartPointer : (cache v.cache).pointed →
      v.recordAt i ≠ v.objAt cache i - pointerSize :=
    placed.record_ne_pointer prepared here less
  refine ⟨rfl, ?_⟩
  constructor
  case fitted => exact fitted
  case apart => exact outside
  case slabs => exact Heap.marked_slabs
  case pages => exact Heap.marked_pages
  case live => exact congrArg _ Heap.marked_live
  case link =>
    refine (Heap.marked_word words (fun aligned => apartPointer fun none =>
      absurd none aligned.ne') outside).trans ?_
    exact Function.update_self ..
  case stored =>
    intro pointed
    rcases Nat.eq_zero_or_pos (cache v.cache).align with unaligned | aligned
    · -- the record was stored when the slab was made
      have notRecord := (apartPointer pointed).symm
      refine (Heap.marked_word words (fun aligned => ?_) ?_).trans ?_
      · omega
      · exact (prepared.slot_of_front v i).2
      · refine (Function.update_of_ne notRecord ..).trans ?_
        exact fits.stored pointed i less (.inr unaligned)
    · exact Heap.marked_pointer words positive aligned
  case same =>
    intro a notRecord notPointer notPayload
    refine (Heap.marked_word words (fun _ => notPointer) notPayload).trans ?_
    exact Function.update_of_ne notRecord ..

/-- An object is cleared for its caller. -/
theorem TakenFrom.fill
    {cache : Nat → KmemCache}
    {heap after : Heap}
    (taken : TakenFrom cache heap after v i)
    (prepared : Prepared cache)
    (content : Nat → Nat) :
    TakenFrom cache heap
      (after.fill (v.objAt cache i) (cache v.cache).payloadSize content) v
      i where
  fitted := taken.fitted
  apart := taken.apart
  slabs := taken.slabs
  pages := taken.pages
  live := taken.live
  link := (after.fill_word content taken.apart).trans taken.link
  stored := fun pointed =>
    (after.fill_word content (prepared.slot_of_front v i).2).trans
      (taken.stored pointed)
  same := fun a notRecord notPointer outside =>
    (after.fill_word content outside).trans
      (taken.same a notRecord notPointer outside)

/-- An object is taken from a slab on the partial queue. -/
theorem Placed.allocFrom_spec
    (placed : Placed m.cache m.heap (v :: rest) loose extra)
    (prepared : Prepared m.cache)
    (onPartial : OnPartial (m.cache v.cache) (m.state v.cache) v rest)
    (others : ∀ d, d ≠ v.cache → Queued (m.cache d) d (m.state d) rest)
    (top : v.frees = i :: frees)
    (result : m.allocFrom v.cache v.header clear = some (obj, after)) :
    obj = v.objAt m.cache i ∧
      ObjOf m.cache (v.take :: rest) v.cache obj ∧
      Sound after [] (v.take :: rest) (obj :: loose) extra ∧
      Confined (· = v.cache) m after (v :: rest) (v.take :: rest) loose
        extra := by
  have here : v ∈ v :: rest := List.mem_cons_self
  have fits := placed.fits v here
  have isTake : v.take = { v with frees } := by
    rw [SlabView.take, top, List.tail_cons]
  obtain ⟨less, notRest, whichTaken⟩ := fits.taken_frees top
  obtain ⟨made, allocated, rfl⟩ :=
    Memory.allocFrom_eq_some fits.header result
  obtain ⟨rfl, taken⟩ := placed.allocSlabObj_spec prepared top allocated
  have takenFrom : TakenFrom m.cache m.heap
      (if clear = true then
        made.fill (v.objAt m.cache i) (m.cache v.cache).payloadSize fun _ => 0
      else made) v i := by
    split_ifs
    · exact taken.fill prepared _
    · exact taken
  generalize (if clear = true then
    made.fill (v.objAt m.cache i) (m.cache v.cache).payloadSize fun _ => 0
    else made) = heap at *
  have free : i ∈ v.frees := top ▸ List.mem_cons_self
  have notCovered := placed.not_given prepared here free
  have notGiven := placed.not_owned_of_free prepared here free
  refine ⟨rfl, ?_, ⟨prepared, ?_, ?_⟩, ?_⟩
  · refine ⟨v.take, List.mem_cons_self, rfl, i, ⟨less, ?_⟩, rfl⟩
    rw [isTake]
    exact notRest
  · refine isTake ▸ placed.take prepared top ?_ takenFrom.pages takenFrom.live
      takenFrom.fitted takenFrom.link takenFrom.stored takenFrom.same
    exact isTake ▸ takenFrom.slabs
  · intro d
    have queue := fits.queue_take top
    by_cases isCache : d = v.cache
    · subst isCache
      by_cases full : v.slab.count + 1 = (m.cache v.cache).objsPerSlab
      · simp only [if_pos full, Function.update_self]
        exact onPartial.fill rfl rfl (queue.trans (if_pos full))
      · simp only [if_neg full]
        exact onPartial.stay rfl rfl (queue.trans (if_neg full))
    · refine .cons_other ?_ (Ne.symm isCache)
      simp only
      split_ifs
      · rw [Function.update_of_ne isCache]
        exact others d isCache
      · exact others d isCache
  · refine isTake ▸ placed.confined_own prepared less notGiven takenFrom.fitted
      (fun isLoose => notCovered (List.mem_append_left _ isLoose))
      (fun _ => id) rfl rfl rfl ?_ ?_ takenFrom.same ?_
    · intro d other
      simp only
      split_ifs
      · exact Function.update_of_ne other ..
      · rfl
    · intro h other
      rw [takenFrom.slabs, Function.update_of_ne other]
    · intro j still isFree
      exact absurd (top ▸ List.mem_cons_of_mem i isFree) still.2

end Take

end RiscvWorkshop.PageSlab
