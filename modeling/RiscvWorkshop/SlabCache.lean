import Mathlib
import RiscvWorkshop.Run
import RiscvWorkshop.KernelBase

namespace RiscvWorkshop.Kmem

/-!
# One kernel memory cache and the calls in progress

An allocation reserves an object under the lock of the cache and takes it from
the slab's list later, and a free counts the object and puts it back later.
Each section under a lock is one step.  The calls of all threads that are
between two sections are in one list, each with where it is.
-/

/-- `slab`: the objects given out or reserved, and the list of free ones. -/
structure Slab where
  count : Nat
  objects : List Nat
deriving Repr, DecidableEq

/--
Calls between two sections: an allocation that is to make a slab, has made one,
or has reserved an object; a free that has counted an object, or put it back;
and a reap at its loop, or with a slab off the queue.
-/
inductive SlabCall where
  | growing
  | attaching (s : Nat)
  | reserved (s : Nat)
  | freeCounted (s obj : Nat)
  | freePut (s : Nat)
  | reaping (force : Bool)
  | releasing (s : Nat) (force : Bool)
deriving Repr, DecidableEq

/--
`kmem_cache` with its slabs, the calls in progress, and the objects that
callers have.
-/
structure KmemCache where
  objsPerSlab : Nat
  limits : Nat
  slabCount : Nat
  slabs : Nat → Option Slab
  partialQue : List Nat
  fullQue : List Nat
  freeQue : List Nat
  calls : List SlabCall
  held : List (Nat × Nat)

/-- `slab_kmem_cache_create`, with the number of objects that fit. -/
def cacheCreate (objsPerSlab limits : Nat) : KmemCache where
  objsPerSlab := objsPerSlab
  limits := limits
  slabCount := 0
  slabs := fun _ => none
  partialQue := []
  fullQue := []
  freeQue := []
  calls := []
  held := []

namespace KmemCache

/-- Rewrite one slab. -/
def setSlab
    (cache : KmemCache)
    (s : Nat)
    (sinfo : Slab) : KmemCache :=
  { cache with slabs := Function.update cache.slabs s (some sinfo) }

/-- The slabs on all queues. -/
def queues (cache : KmemCache) : List Nat :=
  cache.partialQue ++ cache.fullQue ++ cache.freeQue

/-- `list_del`, from the queue that the slab is on. -/
def unlink (cache : KmemCache) (s : Nat) : KmemCache :=
  { cache with
    partialQue := cache.partialQue.erase s
    fullQue := cache.fullQue.erase s
    freeQue := cache.freeQue.erase s }

/-- One call goes on; `none` is a call that was not there, or has ended. -/
def goOn
    (cache : KmemCache)
    (before after : Option SlabCall) : KmemCache :=
  { cache with
    calls :=
      match before with
      | none => after.toList ++ cache.calls
      | some call => after.toList ++ cache.calls.erase call }

/--
The end of the first section of `slab_kmem_cache_alloc`: count one more object
of a slab on the partial queue, and move a slab that is full.
-/
def reserve
    (cache : KmemCache)
    (s : Nat)
    (before : Option SlabCall) : Option KmemCache :=
  match cache.slabs s with
  | none => none
  | some sinfo =>
      let cache :=
        (cache.setSlab s { sinfo with count := sinfo.count + 1 }).goOn before
          (some (.reserved s))
      if sinfo.count + 1 = cache.objsPerSlab then
        let cache := cache.unlink s
        some { cache with fullQue := cache.fullQue ++ [s] }
      else
        some cache

/-- The first section of `slab_kmem_cache_alloc`. -/
def alloc (cache : KmemCache) : Option KmemCache :=
  match cache.partialQue, cache.freeQue with
  | s :: _, _ => cache.reserve s none
  | [], s :: rest =>
      { cache with freeQue := rest, partialQue := [s] }.reserve s none
  | [], [] => some (cache.goOn none (some .growing))

/-- `slab_kmem_cache_grow`, with the slab it makes if there is memory. -/
def grow
    (cache : KmemCache)
    (made : Option Nat) : Option KmemCache :=
  if .growing ∈ cache.calls then
    match made with
    | none => some (cache.goOn (some .growing) none)
    | some s =>
        match cache.slabs s with
        | some _ => none
        | none =>
            some ((cache.setSlab s
              { count := 0
                objects := (List.range cache.objsPerSlab).reverse }).goOn
                  (some .growing) (some (.attaching s)))
  else
    none

/-- The section of `slab_kmem_cache_alloc` after `slab_kmem_cache_grow`. -/
def attach
    (cache : KmemCache)
    (s : Nat) : Option KmemCache :=
  if .attaching s ∈ cache.calls ∧ s ∉ cache.queues then
    { cache with
      slabCount := cache.slabCount + 1
      partialQue := cache.partialQue ++ [s] }.reserve s (some (.attaching s))
  else
    none

/-- `alloc_slab_obj`, which stops if the list of objects is empty. -/
def allocSlabObj
    (cache : KmemCache)
    (s : Nat) : Option KmemCache :=
  if .reserved s ∈ cache.calls then
    match cache.slabs s with
    | none => none
    | some sinfo =>
        match sinfo.objects with
        | [] => none
        | obj :: rest =>
            some
              { (cache.setSlab s { sinfo with objects := rest }).goOn
                  (some (.reserved s)) none with
                held := (s, obj) :: cache.held }
  else
    none

/-- Objects that are held are compared with their slabs. -/
local instance lawfulBEq_held : LawfulBEq (Nat × Nat) :=
  inferInstance

/-- The first section of `slab_kmem_cache_free`. -/
def free
    (cache : KmemCache)
    (s obj : Nat) : Option KmemCache :=
  if (s, obj) ∈ cache.held then
    match cache.slabs s with
    | none => none
    | some sinfo =>
        match sinfo.count with
        | 0 => none
        | count + 1 =>
            let cache :=
              { ((cache.setSlab s { sinfo with count }).goOn none
                  (some (.freeCounted s obj))).unlink s with
                held := cache.held.erase (s, obj) }
            if count = 0 then
              some cache
            else
              some { cache with partialQue := cache.partialQue ++ [s] }
  else
    none

/-- `free_slab_obj`. -/
def freeSlabObj
    (cache : KmemCache)
    (s obj : Nat) : Option KmemCache :=
  if .freeCounted s obj ∈ cache.calls then
    match cache.slabs s with
    | none => none
    | some sinfo =>
        some ((cache.setSlab s
          { sinfo with objects := obj :: sinfo.objects }).goOn
            (some (.freeCounted s obj)) (some (.freePut s)))
  else
    none

/-- The last section of `slab_kmem_cache_free`. -/
def freeEnd
    (cache : KmemCache)
    (s : Nat) : Option KmemCache :=
  if .freePut s ∈ cache.calls then
    match cache.slabs s with
    | none => none
    | some sinfo =>
        let cache := cache.goOn (some (.freePut s)) none
        if sinfo.count = 0 then
          if s ∈ cache.queues then
            none
          else
            some { cache with freeQue := cache.freeQue ++ [s] }
        else
          some cache
  else
    none

/-- The loop of `slab_kmem_cache_reap`, up to a slab that is to be released. -/
def reapNext
    (cache : KmemCache)
    (force : Bool) : Option KmemCache :=
  if .reaping force ∈ cache.calls then
    match cache.freeQue with
    | [] => some (cache.goOn (some (.reaping force)) none)
    | s :: rest =>
        if ¬ force ∧ cache.slabCount ≤ cache.limits then
          some (cache.goOn (some (.reaping force)) none)
        else
          some
            { cache.goOn (some (.reaping force)) (some (.releasing s force)) with
              freeQue := rest
              slabCount := cache.slabCount - 1 }
  else
    none

/-- `free_slab_info` of a slab that was taken off the queue. -/
def freeSlabInfo
    (cache : KmemCache)
    (s : Nat)
    (force : Bool) : Option KmemCache :=
  if .releasing s force ∈ cache.calls then
    some
      { cache.goOn (some (.releasing s force)) (some (.reaping force)) with
        slabs := Function.update cache.slabs s none }
  else
    none

end KmemCache

/-- The sections, by the functions that they are in. -/
inductive SlabAction where
  | alloc
  | grow (made : Option Nat)
  | attach (s : Nat)
  | allocSlabObj (s : Nat)
  | free (s obj : Nat)
  | freeSlabObj (s obj : Nat)
  | freeEnd (s : Nat)
  | reap (force : Bool)
  | reapNext (force : Bool)
  | freeSlabInfo (s : Nat) (force : Bool)
deriving Repr, DecidableEq

/-- One section. -/
def slabNext (cache : KmemCache) : SlabAction → Option KmemCache
  | .alloc => cache.alloc
  | .grow made => cache.grow made
  | .attach s => cache.attach s
  | .allocSlabObj s => cache.allocSlabObj s
  | .free s obj => cache.free s obj
  | .freeSlabObj s obj => cache.freeSlabObj s obj
  | .freeEnd s => cache.freeEnd s
  | .reap force => some (cache.goOn none (some (.reaping force)))
  | .reapNext force => cache.reapNext force
  | .freeSlabInfo s force => cache.freeSlabInfo s force

end RiscvWorkshop.Kmem
