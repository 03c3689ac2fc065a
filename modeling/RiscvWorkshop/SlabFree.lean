import Mathlib
import RiscvWorkshop.SlabSound

namespace RiscvWorkshop.PageSlab

open Pfdb
open Kmem

/-!
# Freeing objects and slabs

A free finds the slab through the page of the object and the record through the
object.  A slab whose objects are all free gives its records, its header and its
pages back, through frees in the caches that they came from.
-/

/-- A slab with one more free object. -/
def SlabView.put (v : SlabView) (i : Nat) : SlabView :=
  { v with frees := i :: v.frees }

section View

variable {cache : Nat → KmemCache}
variable {heap : Heap}
variable {v : SlabView}
variable {i : Nat}

/-- There are at most as many free objects as records. -/
theorem ViewFits.frees_le
    (fits : ViewFits cache heap v) :
    v.frees.length ≤ v.records.length := by
  have subset : v.frees ⊆ List.range v.records.length :=
    fun j free => List.mem_range.mpr (fits.bound j free)
  have lengths := (fits.once.subperm subset).length_le
  rw [List.length_range] at lengths
  exact lengths

/-- Fewer objects are free than there are, if one is given out. -/
theorem ViewFits.frees_lt
    (fits : ViewFits cache heap v)
    (taken : v.Taken i) :
    v.frees.length < v.records.length := by
  refine lt_of_le_of_ne fits.frees_le fun all => taken.2 ?_
  have subset : v.frees ⊆ List.range v.records.length :=
    fun j free => List.mem_range.mpr (fits.bound j free)
  have same := (fits.once.subperm subset).perm_of_length_le
    (by rw [List.length_range, all])
  exact same.mem_iff.mpr (List.mem_range.mpr taken.1)

/-- The queue of a slab that an object is put back to. -/
theorem ViewFits.queue_put
    (fits : ViewFits cache heap v)
    (taken : v.Taken i) :
    (v.put i).queue =
      if 0 < v.count - 1 then .onPartial else .onFree := by
  have less := fits.frees_lt taken
  have some : (v.put i).frees ≠ [] := List.cons_ne_nil _ _
  have frees : (v.put i).frees.length = v.frees.length + 1 := rfl
  have records : (v.put i).records.length = v.records.length := rfl
  rw [SlabView.queue, if_neg some, SlabView.count]
  by_cases last : (v.put i).frees.length = (v.put i).records.length
  · rw [if_pos last, if_neg (by omega)]
  · rw [if_neg last, if_pos (by omega)]

end View

section Free

variable {m after : Memory}
variable {v : SlabView}
variable {rest views : List SlabView}
variable {loose : List Nat}
variable {extra : List SlabPages}
variable {c i obj : Nat}

/-- A slab changes its queue. -/
theorem Queued.move
    {cache : KmemCache}
    {state : CacheState}
    (queued : Queued cache c state (v :: rest))
    (isCache : v.cache = c)
    (once : v.header ∉ rest.map SlabView.header)
    {w : SlabView}
    (sameCache : w.cache = v.cache)
    (sameHeader : w.header = v.header) :
    Queued cache c ((state.queueDel v.header).queueAdd v.header w.queue)
      (w :: rest) := by
  have moved := (queued.leave isCache once).join (sameCache.trans isCache)
  obtain ⟨lined, _, color⟩ := moved
  rw [sameHeader] at lined color
  constructor
  case lined =>
    intro queue
    refine .trans (.of_eq ?_) (lined queue)
    cases w.queue <;> cases queue <;> rfl
  case counted =>
    have counted := queued.counted
    rw [List.countP_cons_of_pos (by simpa using isCache)] at counted
    rw [List.countP_cons_of_pos (by simpa using sameCache.trans isCache)]
    cases w.queue <;> exact counted
  case color =>
    refine lt_of_eq_of_lt ?_ color
    cases w.queue <;> rfl

/-- The queues after the state of one cache is rewritten. -/
theorem Sound.queued_setState
    {idle : List SlabView}
    (sound : Sound m idle views loose extra)
    {state : CacheState}
    {others : List SlabView}
    (here : Queued (m.cache c) c state others)
    (apart : ∀ d, d ≠ c → Queued (m.cache d) d (m.state d) views →
      Queued (m.cache d) d (m.state d) others) :
    ∀ d, Queued (m.cache d) d ((m.setState c state).state d) others := by
  intro d
  by_cases same : d = c
  · subst same
    rw [Memory.setState_state, Function.update_self]
    exact here
  · rw [Memory.setState_state, Function.update_of_ne same]
    exact apart d same (sound.queued d)

/-- The words and headers after an object is freed. -/
def Heap.freed (cache : Nat → KmemCache) (heap : Heap) (v : SlabView) (i : Nat) : Heap :=
  ((heap.call (cache v.cache).destructor (v.objAt cache i)
    (cache v.cache).payloadSize).store (v.recordAt i) v.slab.objects).setSlab
      v.header (v.put i).slab

/-- What is left after an object of a slab is freed. -/
def Memory.freed (m : Memory) (v : SlabView) (i : Nat) : Memory :=
  { m.setState v.cache
      (((m.state v.cache).queueDel v.header).queueAdd v.header
        (v.put i).queue) with
    heap :=
      { m.heap.freed m.cache v i with
        live :=
          m.heap.live.filter fun given => given.obj ≠ v.objAt m.cache i } }

/-- A slab that leaves its queue is on no queue of its cache. -/
theorem Sound.not_mem_queueDel
    (sound : Sound m [] (v :: rest) loose extra) :
    v.header ∉ ((m.state v.cache).queueDel v.header).queues := by
  obtain ⟨_, placed, queued⟩ := sound
  rw [List.nil_append] at placed
  have once : v.header ∉ rest.map SlabView.header :=
    (List.nodup_cons.mp placed.headers).1
  exact ((queued v.cache).leave rfl once).not_mem_queues once

/-- The slab of an object that is freed is in use, the record is not linked. -/
structure Releasable (m : Memory) (v : SlabView) (i : Nat) : Prop where
  pages : m.heap.clusterOf (v.objAt m.cache i) = some (v.pages m.cache)
  header : m.heap.slabs v.header = some v.slab
  bufctl : m.heap.bufctlOf (m.cache v.cache) (v.objAt m.cache i) = v.recordAt i
  used : v.count ≠ 0
  unlinked :
    (m.heap.call (m.cache v.cache).destructor (v.objAt m.cache i)
      (m.cache v.cache).payloadSize).word (v.recordAt i) = 0
  notLinked : v.header ∉ ((m.state v.cache).queueDel v.header).queues

/-- Then the free is not stopped by an assertion. -/
theorem Releasable.slabKmemCacheFree_eq
    (releasable : Releasable m v i) :
    m.slabKmemCacheFree (v.objAt m.cache i) =
      some
        { m.setState v.cache
            (((m.state v.cache).queueDel v.header).queueAdd v.header
              (if 0 < v.count - 1 then .onPartial else .onFree)) with
          heap :=
            { m.heap.freed m.cache v i with
              live :=
                m.heap.live.filter
                  fun given => given.obj ≠ v.objAt m.cache i } } := by
  obtain ⟨pages, header, bufctl, used, unlinked, notLinked⟩ := releasable
  have positive : v.slab.count ≠ 0 := used
  have bufctl' :
      (m.heap.setSlab v.header { v.slab with count := v.slab.count - 1 }).bufctlOf
          (m.cache v.slab.cache) (v.objAt m.cache i) =
        v.recordAt i :=
    bufctl
  have put :
      ((m.heap.setSlab v.header { v.slab with count := v.slab.count - 1 }).call
          (m.cache v.slab.cache).destructor (v.objAt m.cache i)
          (m.cache v.slab.cache).payloadSize).freeSlabObj v.header
          (v.recordAt i) =
        some (m.heap.freed m.cache v i) := by
    rw [Heap.call_setSlab]
    exact Heap.freeSlabObj_setSlab _ _ unlinked
  have live : (m.heap.freed m.cache v i).live = m.heap.live :=
    Heap.call_live _ _ _ _
  by_cases last : v.slab.count - 1 = 0
  · have isLast : v.count - 1 = 0 := last
    rw [if_neg (by omega)]
    simp only [Memory.slabKmemCacheFree, pages, SlabView.pages, header,
      if_neg positive, bufctl', put, live, if_pos last,
      if_neg (Nat.not_lt.mpr last.le)]
    exact if_neg notLinked
  · have more : 0 < v.count - 1 := Nat.pos_of_ne_zero last
    have more' : v.slab.count - 1 > 0 := more
    rw [if_pos more]
    simp only [Memory.slabKmemCacheFree, pages, SlabView.pages, header,
      if_neg positive, bufctl', put, live, if_neg last, if_pos more']
    rfl

/-- A free of a loose object is not stopped by an assertion. -/
theorem Sound.slabKmemCacheFree_eq
    (sound : Sound m [] (v :: rest) (v.objAt m.cache i :: loose) extra)
    (taken : v.Taken i) :
    m.slabKmemCacheFree (v.objAt m.cache i) = some (m.freed v i) := by
  have notLinked := sound.not_mem_queueDel
  obtain ⟨prepared, placed, _⟩ := sound
  rw [List.nil_append] at placed
  have here : v ∈ v :: rest := List.mem_cons_self
  have fits := placed.fits v here
  have holds := placed.holds_objAt prepared here taken.1
  -- the destructor does not reach the link of the record
  have unlinked :
      (m.heap.call (m.cache v.cache).destructor (v.objAt m.cache i)
        (m.cache v.cache).payloadSize).word (v.recordAt i) = 0 := by
    rw [m.heap.call_word _ fun payload => ?_]
    · exact fits.unlinked i taken
    · exact placed.uses_not_payload prepared here taken.1
        (placed.not_owned_of_loose List.mem_cons_self)
        (fun onSlab => (fits.onSlab onSlab).2.2 i taken onSlab)
        (.inl rfl) payload
  have releasable : Releasable m v i :=
    { pages := placed.clusterOf_eq here holds
      header := fits.header
      bufctl := placed.bufctlOf_eq here taken
      used := (Nat.sub_pos_of_lt (fits.frees_lt taken)).ne'
      unlinked
      notLinked }
  rw [Memory.freed, fits.queue_put taken]
  exact releasable.slabKmemCacheFree_eq

/-- A free writes to the record and to the object. -/
theorem Heap.freed_word
    {cache : Nat → KmemCache}
    {heap : Heap}
    {a : Nat}
    (notRecord : a ≠ v.recordAt i)
    (outside : ¬ v.Payload cache i a) :
    (heap.freed cache v i).word a = heap.word a := by
  rw [Heap.freed, Heap.setSlab_word, Heap.store_word,
    Function.update_of_ne notRecord]
  exact heap.call_word _ outside

/-- A freed object is free, and the slab is on the queue for it. -/
theorem Sound.freed
    (sound : Sound m [] (v :: rest) (v.objAt m.cache i :: loose) extra)
    (taken : v.Taken i) :
    Sound (m.freed v i) [] (v.put i :: rest) loose extra := by
  obtain ⟨prepared, placed, queued⟩ := id sound
  rw [List.nil_append] at placed
  have once : v.header ∉ rest.map SlabView.header :=
    (List.nodup_cons.mp placed.headers).1
  constructor
  case prepared => exact prepared
  case placed =>
    refine placed.put prepared taken ?_ ?_ rfl ?_ fun a => Heap.freed_word
    · exact congrArg (Function.update · _ _) (Heap.call_slabs _ _ _ _)
    · exact Heap.call_pages _ _ _ _
    · exact Function.update_self ..
  case queued =>
    refine sound.queued_setState ((queued v.cache).move rfl once rfl rfl) ?_
    exact fun d other before => before.of_other (Ne.symm other) rfl

/-- A free is confined to the cache of the object. -/
theorem Sound.confined_freed
    (sound : Sound m [] (v :: rest) (v.objAt m.cache i :: loose) extra)
    (taken : v.Taken i) :
    Confined (· = v.cache) m (m.freed v i) (v :: rest) (v.put i :: rest) loose
      extra := by
  obtain ⟨prepared, placed, queued⟩ := sound
  rw [List.nil_append] at placed
  have here : v ∈ v :: rest := List.mem_cons_self
  have fits := placed.fits v here
  have notLoose : v.objAt m.cache i ∉ loose := fun again =>
    (List.nodup_cons.mp placed.owners).1 (List.mem_append_left _ again)
  refine placed.confined_own prepared taken.1
    (placed.not_owned_of_loose List.mem_cons_self)
    (fun onSlab => (fits.onSlab onSlab).2.2 i taken onSlab) notLoose
    (fun _ => List.mem_cons_of_mem _) rfl rfl rfl ?_ ?_ ?_ ?_
  · exact fun c other => Function.update_of_ne other ..
  · intro h other
    exact (Function.update_of_ne other ..).trans
      (congrFun (Heap.call_slabs _ _ _ _) h)
  · exact fun a notRecord _ outside => Heap.freed_word notRecord outside
  · intro j still isFree
    exact (List.mem_cons.mp isFree).resolve_right still.2

end Free

end RiscvWorkshop.PageSlab
