import Mathlib
import RiscvWorkshop.LinkedList
import RiscvWorkshop.SlabLayout

namespace RiscvWorkshop.PageSlab

open Pfdb
open Kmem

/-!
# The slab allocator in memory

The records of objects and the pointers in front of objects are 64-bit words of
one memory, which also holds what the callers put into their objects.  Slab
headers are kept by their address.  An assertion that fails, and a null pointer
that is followed, stop the kernel: there is no state after them.
-/

/--
`slab`.  The last field is the records that `slab_kmem_cache_grow` made, which
the code does not keep.
-/
structure Slab where
  cache : Nat
  objects : Nat
  count : Nat
  page : Nat
  records : List Nat
deriving DecidableEq

/-- The page cluster of a slab, with `slabp` of its first page frame. -/
structure SlabPages where
  kaddr : Nat
  order : Nat
  slabp : Nat
deriving DecidableEq

/-- An object that is given out, with the record that it was taken from. -/
structure Given where
  obj : Nat
  bufctl : Nat
deriving DecidableEq

/-- Memory words, slab headers, the pages of slabs, and the objects given out. -/
structure Heap where
  word : Nat → Nat
  slabs : Nat → Option Slab
  pages : List SlabPages
  live : List Given

/-- `kmem_cache`: the fields that change. -/
structure CacheState where
  colorIndex : Nat
  slabCount : Nat
  partialQue : List Nat
  fullQue : List Nat
  freeQue : List Nat

/--
The allocator, with the objects that its callers have, and the answers that the
page pool is going to give: no memory, or the address of a page cluster.
-/
structure Memory where
  dcache : Dcache
  cache : Nat → KmemCache
  heap : Heap
  state : Nat → CacheState
  held : List Nat
  supply : List (Option Nat)

/-! ## Words, lists of records and pages -/

namespace SlabPages

/-- An address in a page cluster. -/
def Holds (pages : SlabPages) (a : Nat) : Prop :=
  pages.kaddr ≤ a ∧ a < pages.kaddr + pageSize <<< pages.order

instance (pages : SlabPages) (a : Nat) : Decidable (pages.Holds a) :=
  inferInstanceAs (Decidable (_ ∧ _))

/-- Two page clusters without a common page. -/
def Apart (pages other : SlabPages) : Prop :=
  pages.kaddr + pageSize <<< pages.order ≤ other.kaddr ∨
    other.kaddr + pageSize <<< other.order ≤ pages.kaddr

instance (pages other : SlabPages) : Decidable (pages.Apart other) :=
  inferInstanceAs (Decidable (_ ∨ _))

end SlabPages

namespace Heap

/-- Write a word. -/
def store (heap : Heap) (a w : Nat) : Heap :=
  { heap with word := Function.update heap.word a w }

/-- Write the words of an object. -/
def fill (heap : Heap) (obj size : Nat) (content : Nat → Nat) : Heap :=
  { heap with
    word := fun a =>
      if obj ≤ a ∧ a < obj + size then content a else heap.word a }

/-- A constructor or destructor, if there is one. -/
def call
    (heap : Heap)
    (function : Option (Nat → Nat))
    (obj size : Nat) : Heap :=
  match function with
  | none => heap
  | some content => heap.fill obj size content

/-- Rewrite a slab header. -/
def setSlab (heap : Heap) (h : Nat) (sinfo : Slab) : Heap :=
  { heap with slabs := Function.update heap.slabs h (some sinfo) }

/-- `slist_add`, to the free objects of a slab. -/
def slistAdd (heap : Heap) (h node : Nat) : Option Heap :=
  match heap.slabs h with
  | none => none
  | some sinfo =>
      some ((heap.store node sinfo.objects).setSlab h
        { sinfo with objects := node })

/-- `slist_get_top`, from the free objects of a slab.  Callers follow its result. -/
def slistGetTop (heap : Heap) (h : Nat) : Option (Nat × Heap) :=
  match heap.slabs h with
  | none => none
  | some sinfo =>
      if sinfo.objects = 0 then
        none
      else
        some (sinfo.objects,
          (heap.store sinfo.objects 0).setSlab h
            { sinfo with objects := heap.word sinfo.objects })

/-- The page cluster that an address is in. -/
def clusterOf (heap : Heap) (a : Nat) : Option SlabPages :=
  heap.pages.find? fun pages => pages.Holds a

/-- `pgif_free_page`. -/
def pgifFreePage (heap : Heap) (kaddr : Nat) : Option Heap :=
  if ∃ pages ∈ heap.pages, pages.kaddr = kaddr then
    some
      { heap with
        pages := heap.pages.filter fun pages => pages.kaddr ≠ kaddr }
  else
    none

/-- `init_slab_info`, and `slabp` of the first page frame. -/
def initSlabInfo (heap : Heap) (c h kaddr : Nat) : Heap :=
  { heap.setSlab h { cache := c, objects := 0, count := 0, page := kaddr, records := [] } with
    pages := heap.pages.map fun pages =>
      if pages.kaddr = kaddr then { pages with slabp := h } else pages }

/-- `slist_add` of a record that `slab_kmem_cache_grow` has made. -/
def addRecord (heap : Heap) (h bctl : Nat) : Option Heap :=
  match heap.slabs h with
  | none => none
  | some sinfo =>
      (heap.setSlab h { sinfo with records := sinfo.records ++ [bctl] }).slistAdd
        h bctl

/-- `alloc_slab_obj`.  The link of the record is null after `slist_get_top`. -/
def allocSlabObj
    (heap : Heap)
    (cache : KmemCache)
    (h : Nat) : Option (Nat × Heap) :=
  match heap.slistGetTop h with
  | none => none
  | some (bctl, heap) =>
      let ptr :=
        if cache.onSlab then bctl + sBufctlSize else heap.word (bctl + bufctlObj)
      let obj := cache.alignObj ptr
      let heap :=
        if cache.align > 0 then
          heap.store (truncateAlign (obj - pointerSize) pointerSize) bctl
        else
          heap
      let heap := heap.call cache.constructor obj cache.payloadSize
      if cache.onSlab ∧
          cache.objSize < (obj + cache.payloadSize - bctl) % sizeLimit then
        none
      else
        some (obj, { heap with live := { obj, bufctl := bctl } :: heap.live })

/-- `free_slab_obj`. -/
def freeSlabObj (heap : Heap) (h bufctl : Nat) : Option Heap :=
  if heap.word bufctl ≠ 0 then none else heap.slistAdd h bufctl

/-- The record that `slab_kmem_cache_free` finds for an object of a cache. -/
def bufctlOf (heap : Heap) (cache : KmemCache) (obj : Nat) : Nat :=
  if cache.align = 0 ∧ cache.onSlab then
    obj - sBufctlSize
  else
    heap.word (obj - pointerSize)

/-- The loop of `slab_kmem_cache_grow` for records in front of the objects. -/
def addSBufctls
    (heap : Heap)
    (objSize h kaddr : Nat) : Nat → Option Heap
  | 0 => some heap
  | i + 1 =>
      match heap.addSBufctls objSize h kaddr i with
      | none => none
      | some heap => heap.addRecord h (kaddr + objSize * i)

section Words

variable (heap : Heap)
variable (a w obj size h : Nat)
variable (content : Nat → Nat)
variable (function : Option (Nat → Nat))
variable (sinfo : Slab)

@[simp]
theorem store_word :
    (heap.store a w).word = Function.update heap.word a w :=
  rfl

@[simp]
theorem store_slabs :
    (heap.store a w).slabs = heap.slabs :=
  rfl

@[simp]
theorem store_pages :
    (heap.store a w).pages = heap.pages :=
  rfl

@[simp]
theorem store_live :
    (heap.store a w).live = heap.live :=
  rfl

@[simp]
theorem setSlab_word :
    (heap.setSlab h sinfo).word = heap.word :=
  rfl

@[simp]
theorem setSlab_slabs :
    (heap.setSlab h sinfo).slabs =
      Function.update heap.slabs h (some sinfo) :=
  rfl

@[simp]
theorem setSlab_pages :
    (heap.setSlab h sinfo).pages = heap.pages :=
  rfl

@[simp]
theorem setSlab_live :
    (heap.setSlab h sinfo).live = heap.live :=
  rfl

@[simp]
theorem fill_slabs :
    (heap.fill obj size content).slabs = heap.slabs :=
  rfl

@[simp]
theorem fill_pages :
    (heap.fill obj size content).pages = heap.pages :=
  rfl

@[simp]
theorem fill_live :
    (heap.fill obj size content).live = heap.live :=
  rfl

@[simp]
theorem call_slabs :
    (heap.call function obj size).slabs = heap.slabs := by
  cases function <;> rfl

@[simp]
theorem call_pages :
    (heap.call function obj size).pages = heap.pages := by
  cases function <;> rfl

@[simp]
theorem call_live :
    (heap.call function obj size).live = heap.live := by
  cases function <;> rfl

/-- A constructor or destructor does not see slab headers. -/
theorem call_setSlab :
    (heap.setSlab h sinfo).call function obj size =
      (heap.call function obj size).setSlab h sinfo := by
  cases function <;> rfl

/-- The last header that was written is there. -/
@[simp]
theorem setSlab_setSlab
    (later : Slab) :
    (heap.setSlab h sinfo).setSlab h later = heap.setSlab h later := by
  rw [setSlab, setSlab_slabs, Function.update_idem]
  rfl

/-- Words and headers are apart. -/
theorem store_setSlab :
    (heap.setSlab h sinfo).store a w = (heap.store a w).setSlab h sinfo :=
  rfl

/-- A record is added to the free objects of a header that was written. -/
theorem slistAdd_setSlab
    (node : Nat) :
    (heap.setSlab h sinfo).slistAdd h node =
      some ((heap.store node sinfo.objects).setSlab h
        { sinfo with objects := node }) := by
  rw [slistAdd, setSlab_slabs, Function.update_self]
  exact congrArg some (setSlab_setSlab (heap.store node sinfo.objects) h _ _)

/-- The first record is taken off the free objects of a header that was written. -/
theorem slistGetTop_setSlab
    {sinfo : Slab}
    (notNull : sinfo.objects ≠ 0) :
    (heap.setSlab h sinfo).slistGetTop h =
      some (sinfo.objects,
        (heap.store sinfo.objects 0).setSlab h
          { sinfo with objects := heap.word sinfo.objects }) := by
  rw [slistGetTop, setSlab_slabs, Function.update_self]
  dsimp only
  rw [if_neg notNull, store_setSlab, setSlab_setSlab]
  rfl

/-- A record that is in no list is put back. -/
theorem freeSlabObj_setSlab
    {heap : Heap}
    {bufctl : Nat}
    (unlinked : heap.word bufctl = 0) :
    (heap.setSlab h sinfo).freeSlabObj h bufctl =
      some ((heap.store bufctl sinfo.objects).setSlab h
        { sinfo with objects := bufctl }) := by
  rw [freeSlabObj, setSlab_word, if_neg (not_not.mpr unlinked)]
  exact heap.slistAdd_setSlab h sinfo bufctl

variable {a obj size}

/-- Words outside an object stay when the object is written. -/
theorem fill_word
    (outside : ¬ (obj ≤ a ∧ a < obj + size)) :
    (heap.fill obj size content).word a = heap.word a :=
  if_neg outside

/-- A constructor or destructor writes to its object only. -/
theorem call_word
    (outside : ¬ (obj ≤ a ∧ a < obj + size)) :
    (heap.call function obj size).word a = heap.word a := by
  cases function with
  | none => rfl
  | some content => exact heap.fill_word content outside

end Words

end Heap

/-! ## Queues -/

namespace CacheState

/-- The slabs on all queues. -/
def queues (state : CacheState) : List Nat :=
  state.partialQue ++ state.fullQue ++ state.freeQue

/-- `queue_del`, from the queue that the slab is on. -/
def queueDel (state : CacheState) (h : Nat) : CacheState :=
  { state with
    partialQue := state.partialQue.erase h
    fullQue := state.fullQue.erase h
    freeQue := state.freeQue.erase h }

/-- `KMEM_CACHE_IS_BUSY`. -/
def isBusy (state : CacheState) : Bool :=
  !state.partialQue.isEmpty || !state.fullQue.isEmpty

end CacheState

namespace Memory

/-- Rewrite the fields of one cache that change. -/
def setState (m : Memory) (c : Nat) (state : CacheState) : Memory :=
  { m with state := Function.update m.state c state }

@[simp]
theorem setState_state
    (m : Memory)
    (c : Nat)
    (state : CacheState) :
    (m.setState c state).state = Function.update m.state c state :=
  rfl

@[simp]
theorem setState_cache
    (m : Memory)
    (c : Nat)
    (state : CacheState) :
    (m.setState c state).cache = m.cache :=
  rfl

@[simp]
theorem setState_heap
    (m : Memory)
    (c : Nat)
    (state : CacheState) :
    (m.setState c state).heap = m.heap :=
  rfl

/--
`pgif_get_free_page_cluster`: the next answer of the page pool, which gives a
cluster that no slab has.
-/
def pgifGetFreePageCluster
    (m : Memory)
    (order : Nat) : Option (Option Nat × Memory) :=
  match m.supply with
  | [] => none
  | none :: supply => some (none, { m with supply })
  | some kaddr :: supply =>
      let pages : SlabPages := { kaddr, order, slabp := 0 }
      if 0 < kaddr ∧ pageSize <<< order ∣ kaddr ∧
          ∀ other ∈ m.heap.pages, pages.Apart other then
        some (some kaddr,
          { m with supply, heap := { m.heap with pages := pages :: m.heap.pages } })
      else
        none

/-! ## Freeing -/

/-- `slab_kmem_cache_free`. -/
def slabKmemCacheFree (m : Memory) (obj : Nat) : Option Memory :=
  match m.heap.clusterOf obj with
  | none => none
  | some pages =>
      let h := pages.slabp
      match m.heap.slabs h with
      | none => none
      | some sinfo =>
          if sinfo.count = 0 then
            none
          else
            let c := sinfo.cache
            let cache := m.cache c
            let count := sinfo.count - 1
            let state := (m.state c).queueDel h
            let state :=
              if count > 0 then
                { state with partialQue := state.partialQue ++ [h] }
              else
                state
            let heap := m.heap.setSlab h { sinfo with count }
            let bufctl := heap.bufctlOf cache obj
            let heap := heap.call cache.destructor obj cache.payloadSize
            match heap.freeSlabObj h bufctl with
            | none => none
            | some heap =>
                let heap :=
                  { heap with live := heap.live.filter fun given => given.obj ≠ obj }
                if count = 0 then
                  if h ∈ state.queues then
                    none
                  else
                    some
                      { m.setState c
                          { state with freeQue := state.freeQue ++ [h] } with
                        heap }
                else
                  some { m.setState c state with heap }

/-- `kfree`, which does nothing for an address that is not in a slab. -/
def kfree (m : Memory) (a : Nat) : Option Memory :=
  if a = 0 then
    some m
  else
    match m.heap.clusterOf a with
    | none => some m
    | some _ => m.slabKmemCacheFree a

/-- The loop of `free_slab_info`, by the rounds left. -/
def freeBufctls (m : Memory) (h : Nat) : Nat → Option Memory
  | 0 => none
  | rounds + 1 =>
      match m.heap.slabs h with
      | none => none
      | some sinfo =>
          if sinfo.objects = 0 then
            some m
          else
            match m.heap.slistGetTop h with
            | none => none
            | some (bctl, heap) =>
                match { m with heap }.kfree bctl with
                | none => none
                | some m => m.freeBufctls h rounds

/-- `free_slab_info`.  A slab has at most as many records as objects. -/
def freeSlabInfo (m : Memory) (c h : Nat) : Option Memory :=
  match m.heap.slabs h with
  | none => none
  | some sinfo =>
      let released :=
        if (m.cache c).onSlab then
          some m
        else
          match m.freeBufctls h ((m.cache c).objsPerSlab + 1) with
          | none => none
          | some m => m.kfree h
      match released with
      | none => none
      | some m =>
          let heap := { m.heap with slabs := Function.update m.heap.slabs h none }
          (heap.pgifFreePage sinfo.page).map fun heap => { m with heap }

/-! ## Allocating -/

/--
One round of the loop of `slab_kmem_cache_grow` that allocates a record for the
object whose room starts at an address.
-/
def addBufctl
    (kmalloc : Memory → Nat → Option (Nat × Memory))
    (m : Memory)
    (c h offSlabObjp : Nat) : Option (Except Errno Unit × Memory) :=
  match kmalloc m bufctlSize with
  | none => none
  | some (bctl, m) =>
      if bctl = 0 then
        (m.freeSlabInfo c h).map fun m => (.error .enomem, m)
      else
        let heap := m.heap.store offSlabObjp bctl
        let heap := heap.store (bctl + bufctlObj) (offSlabObjp + pointerSize)
        let heap := heap.store (bctl + pointerSize) h
        match heap.addRecord h bctl with
        | none => none
        | some heap => some (.ok (), { m with heap })

/-- The rounds of this loop up to one object, or up to the first that fails. -/
def addBufctls
    (kmalloc : Memory → Nat → Option (Nat × Memory))
    (m : Memory)
    (c h first : Nat) : Nat → Option (Except Errno Unit × Memory)
  | 0 => some (.ok (), m)
  | i + 1 =>
      match m.addBufctls kmalloc c h first i with
      | some (.ok (), m) =>
          m.addBufctl kmalloc c h (first + (m.cache c).objSize * i)
      | other => other

/-- `slab_kmem_cache_grow`, with what it calls for its own records. -/
def slabKmemCacheGrow
    (kmalloc : Memory → Nat → Option (Nat × Memory))
    (m : Memory)
    (c : Nat) : Option (Except Errno Nat × Memory) :=
  let cache := m.cache c
  match m.pgifGetFreePageCluster cache.order with
  | none => none
  | some (none, m) => some (.error .enomem, m)
  | some (some kaddr, m) =>
      if cache.onSlab then
        let h := kaddr + cache.slabBytes - slabSize
        let heap := m.heap.initSlabInfo c h kaddr
        (heap.addSBufctls cache.objSize h kaddr cache.objsPerSlab).map
          fun heap => (.ok h, { m with heap })
      else
        match kmalloc m slabSize with
        | none => none
        | some (h, m) =>
            if h = 0 then
              (m.heap.pgifFreePage kaddr).map
                fun heap => (.error .enomem, { m with heap })
            else
              let m := { m with heap := m.heap.initSlabInfo c h kaddr }
              let state := m.state c
              let coloff := cache.coloff state.colorIndex
              let m :=
                if cache.coloring then
                  m.setState c
                    { state with
                      colorIndex := (state.colorIndex + 1) % cache.colorNum }
                else
                  m
              if cache.coloring ∧ m.dcache.size ≤ coloff then
                none
              else
                match m.addBufctls kmalloc c h (kaddr + coloff)
                    cache.objsPerSlab with
                | none => none
                | some (.error e, m) => some (.error e, m)
                | some (.ok (), m) => some (.ok h, m)

/-- The end of `slab_kmem_cache_alloc`, from the count of the slab on. -/
def allocFrom
    (m : Memory)
    (c h : Nat)
    (clear : Bool) : Option (Nat × Memory) :=
  match m.heap.slabs h with
  | none => none
  | some sinfo =>
      let cache := m.cache c
      let state := m.state c
      let m := { m with heap := m.heap.setSlab h { sinfo with count := sinfo.count + 1 } }
      let m :=
        if sinfo.count + 1 = cache.objsPerSlab then
          m.setState c
            { state with
              partialQue := state.partialQue.erase h
              fullQue := state.fullQue ++ [h] }
        else
          m
      match m.heap.allocSlabObj cache h with
      | none => none
      | some (obj, heap) =>
          let heap :=
            if clear then heap.fill obj cache.payloadSize fun _ => 0 else heap
          some (obj, { m with heap })

/-- Put a slab on the partial queue and allocate from it. -/
def allocQueued
    (m : Memory)
    (c h : Nat)
    (clear : Bool) : Option (Nat × Memory) :=
  let state := m.state c
  if h ∈ state.queues then
    none
  else
    (m.setState c { state with partialQue := state.partialQue ++ [h] }).allocFrom
      c h clear

/-- `slab_kmem_cache_alloc`, with what `slab_kmem_cache_grow` calls. -/
def allocWith
    (kmalloc : Memory → Nat → Option (Nat × Memory))
    (m : Memory)
    (c : Nat)
    (clear : Bool) : Option (Except Errno Nat × Memory) :=
  let state := m.state c
  match state.partialQue, state.freeQue with
  | h :: _, _ => (m.allocFrom c h clear).map fun (obj, m) => (.ok obj, m)
  | [], h :: rest =>
      ((m.setState c { state with freeQue := rest }).allocQueued c h clear).map
        fun (obj, m) => (.ok obj, m)
  | [], [] =>
      match m.slabKmemCacheGrow kmalloc c with
      | none => none
      | some (.error e, m) => some (.error e, m)
      | some (.ok h, m) =>
          let state := m.state c
          let m := m.setState c { state with slabCount := state.slabCount + 1 }
          (m.allocQueued c h clear).map fun (obj, m) => (.ok obj, m)

end Memory

/-- `SLAB_PREALLOC_CACHE_NR`. -/
def slabPreallocCacheNr : Nat := 14

/-- `SLAB_PREALLOC_BASE`. -/
def slabPreallocBase : Nat := 8

/-- The cache that `kmalloc` takes for a size. -/
def kmallocCache (size : Nat) : Option Nat :=
  (List.range slabPreallocCacheNr).find? fun i => slabPreallocBase <<< i ≥ size

namespace Memory

/--
`kmalloc`, with the allocation from a cache that it calls.  Without memory the
result is the null address.
-/
def kmallocWith
    (alloc : Memory → Nat → Option (Except Errno Nat × Memory))
    (m : Memory)
    (size : Nat) : Option (Nat × Memory) :=
  match kmallocCache size with
  | none => some (0, m)
  | some i =>
      match alloc m i with
      | none => none
      | some (.error _, m) => some (0, m)
      | some (.ok obj, m) => some (obj, m)

/--
`slab_kmem_cache_alloc`, which `slab_kmem_cache_grow` calls for its own records,
by the depth of these calls.
-/
def slabKmemCacheAlloc
    (clear : Bool) : Nat → Memory → Nat → Option (Except Errno Nat × Memory)
  | 0, _, _ => none
  | depth + 1, m, c =>
      m.allocWith (kmallocWith (slabKmemCacheAlloc clear depth)) c clear

/-! ## Shrinking -/

/-- The loop of `slab_kmem_cache_reap`, by the rounds left. -/
def reapLoop (force : Bool) (c : Nat) : Nat → Memory → Option Memory
  | 0, _ => none
  | rounds + 1, m =>
      let state := m.state c
      match state.freeQue with
      | [] => some m
      | h :: rest =>
          if ¬ force ∧ state.slabCount ≤ (m.cache c).limits then
            some m
          else
            let m :=
              m.setState c
                { state with freeQue := rest, slabCount := state.slabCount - 1 }
            match m.freeSlabInfo c h with
            | none => none
            | some m => reapLoop force c rounds m

/-- `slab_kmem_cache_reap`.  Every round takes a slab off the free queue. -/
def slabKmemCacheReap (m : Memory) (c : Nat) (force : Bool) : Option Memory :=
  reapLoop force c ((m.state c).freeQue.length + 1) m

/-- The loop of `slab_kmem_cache_destroy`, by the rounds left. -/
def destroyLoop (c : Nat) : Nat → Memory → Option Memory
  | 0, _ => none
  | rounds + 1, m =>
      let state := m.state c
      if state.freeQue = [] then
        some m
      else if state.isBusy then
        some m
      else
        match m.slabKmemCacheReap c true with
        | none => none
        | some m => destroyLoop c rounds m

/-- `slab_kmem_cache_destroy`.  One round leaves nothing on the free queue. -/
def slabKmemCacheDestroy (m : Memory) (c : Nat) : Option Memory :=
  destroyLoop c 2 m

/-- The loop of `slab_finalize_preallocate_cahches`, from a cache down. -/
def finalizeLoop (m : Memory) : Nat → Option Memory
  | 0 => some m
  | i + 1 =>
      match m.slabKmemCacheDestroy i with
      | none => none
      | some m => m.finalizeLoop i

/-- `slab_finalize_preallocate_cahches`. -/
def slabFinalizePreallocateCaches (m : Memory) : Option Memory :=
  m.finalizeLoop slabPreallocCacheNr

end Memory

/-! ## Runs -/

/-- The sizes of the preallocated caches are sizes. -/
theorem prealloc_isSize
    {i : Nat}
    (less : i < slabPreallocCacheNr) :
    slabPreallocBase <<< i < sizeLimit := by
  rw [Nat.shiftLeft_eq]
  refine (Nat.mul_lt_mul_of_pos_left
    (Nat.pow_lt_pow_right Nat.one_lt_two less) (by decide)).trans ?_
  decide

/-- The arguments for a cache of `slab_prepare_preallocate_cahches`. -/
def preallocArgs (i : Nat) (less : i < slabPreallocCacheNr) : CacheArgs where
  size := slabPreallocBase <<< i
  align := 0
  limits := 0
  alignHw := false
  coloring := false
  constructor := none
  destructor := none
  isSize := prealloc_isSize less
  isAlign := .inl rfl

/-- The preallocated caches, and others that were created. -/
structure Created (dcache : Dcache) (cache : Nat → KmemCache) : Prop where
  prealloc : ∀ i, (less : i < slabPreallocCacheNr) →
    slabKmemCacheCreate dcache (preallocArgs i less) = .ok (cache i)
  others : ∀ c, slabPreallocCacheNr ≤ c →
    ∃ args, slabKmemCacheCreate dcache args = .ok (cache c)

/-- No slab was made yet, and the memory holds anything. -/
def emptyMemory
    (dcache : Dcache)
    (cache : Nat → KmemCache)
    (word : Nat → Nat) : Memory where
  dcache := dcache
  cache := cache
  heap := { word, slabs := fun _ => none, pages := [], live := [] }
  state := fun _ =>
    { colorIndex := 0
      slabCount := 0
      partialQue := []
      fullQue := []
      freeQue := [] }
  held := []
  supply := []

/--
What the callers do: allocate from a cache with these answers of the page pool,
free an object that they have, shrink a cache, or write to an object.
-/
inductive Action where
  | alloc (c : Nat) (clear : Bool) (supply : List (Option Nat))
  | free (obj : Nat)
  | reap (c : Nat) (force : Bool)
  | write (obj : Nat) (content : Nat → Nat)

/-- The records of a slab come from slabs that keep theirs in the pages. -/
def kmallocDepth : Nat := 2

namespace Memory

/-- The cache of the slab that an address is in. -/
def cacheOf (m : Memory) (a : Nat) : Option Nat :=
  match m.heap.clusterOf a with
  | none => none
  | some pages => (m.heap.slabs pages.slabp).map Slab.cache

/-- One step of the callers. -/
def next (m : Memory) : Action → Option Memory
  | .alloc c clear supply =>
      match slabKmemCacheAlloc clear kmallocDepth { m with supply } c with
      | none => none
      | some (.error _, m) => some { m with supply := [] }
      | some (.ok obj, m) => some { m with supply := [], held := obj :: m.held }
  | .free obj =>
      if obj ∈ m.held then
        (m.slabKmemCacheFree obj).map
          fun m => { m with held := m.held.erase obj }
      else
        none
  | .reap c force => m.slabKmemCacheReap c force
  | .write obj content =>
      if obj ∈ m.held then
        match m.cacheOf obj with
        | none => none
        | some c =>
            some
              { m with
                heap := m.heap.fill obj (m.cache c).payloadSize content }
      else
        none

end Memory

end RiscvWorkshop.PageSlab
