import Mathlib
import RiscvWorkshop.PageCacheSteps

namespace RiscvWorkshop.PageCache

/-!
# Threads in the page cache

A thread stands between two sections of a call, or outside of the calls with the
pages that it got and has not put back.  A section begins where the lock of the
pool is taken and ends where it is released, or is what the thread does without
the lock.  A thread that sleeps on a page is taken off its wait queue by the
thread that wakes it, and takes the lock of the pool again in a later section.
-/

/-- A device and an offset at a page boundary. -/
structure PageKey where
  bdevid : Nat
  offset : Nat
deriving Repr, DecidableEq

/-- The key of a page cache. -/
def PCache.key (pc : PCache) : PageKey where
  bdevid := pc.bdevid
  offset := pc.offset

/-- The arguments and locals of `pagecache_shrink_pages`. -/
structure ShrinkVars where
  max : Nat
  wbonly : Bool
  lp : Option Nat
  np : Option Nat
  freeNr : Nat
deriving Repr, DecidableEq

/-- What a round of the shrinker does next with its page. -/
inductive ShrinkPoint where
  | write
  | drop
  | check
  | free
deriving Repr, DecidableEq

/-- The section that a thread comes to next. -/
inductive Place where
  /-- outside of the calls -/
  | outside
  /-- `lookup_pagecache`, at the search -/
  | finding (key : PageKey)
  /-- on the wait queue of a page -/
  | asleep (frame : Nat) (key : PageKey)
  /-- woken, and without the lock of the pool -/
  | woken (frame : Nat) (key : PageKey)
  /-- `lookup_pagecache`, at the allocation of a new page -/
  | allocating (key : PageKey)
  /-- `lookup_pagecache`, behind the release of the lock -/
  | loading (frame : Nat)
  /-- `pagecache_put`, behind the reference that was dropped -/
  | putting (frame : Nat)
  /-- a round of the shrinker with its page -/
  | shrinking (point : ShrinkPoint) (frame : Nat) (vars : ShrinkVars)
  /-- the shrinker, before it takes the lock for the next round -/
  | shrinkAgain (vars : ShrinkVars)
  /-- the shrinker, in the next round without the lock -/
  | shrinkUnlocked (vars : ShrinkVars)
  /-- an assertion has failed -/
  | stopped
deriving Repr, DecidableEq

/-- A thread with the pages that it got. -/
structure Agent where
  place : Place
  held : List Nat
deriving Repr, DecidableEq

/-- The pool and the threads. -/
structure CacheSystem where
  pool : Pool
  agents : Nat → Agent

namespace Pool

/-- `SPLAY_FIND`. -/
def findPage
    (pool : Pool)
    (key : PageKey) : Option Nat :=
  pool.tree.find? fun frame => (pool.pages frame).any fun pc => pc.key = key

/-- The threads that sleep on a page. -/
def waitersOf
    (pool : Pool)
    (frame : Nat) : List Nat :=
  match pool.pages frame with
  | none => []
  | some pc => pc.waiters

/-- `pagecache_put`, behind a reference that was not the last one. -/
def putEnd
    (pool : Pool)
    (frame : Nat) : Option Pool :=
  match pool.pages frame with
  | none => none
  | some pc =>
      if pc.refs = 0 then
        none
      else
        some
          { pool.setPage frame
              { pc with refs := pc.refs + 1, busy := none, waiters := [] }
            with lru := pool.lru ++ [frame] }

end Pool

/-- The end of a round: the saved entry becomes the next one. -/
def ShrinkVars.advance
    (vars : ShrinkVars)
    (pool : Pool) : ShrinkVars :=
  { vars with lp := vars.np, np := lruNext pool.lru vars.np }

/-- A thread that sleeps is woken. -/
def Agent.wake (agent : Agent) : Agent :=
  match agent.place with
  | .asleep frame key => { agent with place := .woken frame key }
  | _ => agent

namespace CacheSystem

variable (sys : CacheSystem)

/-- One thread comes to a place. -/
def setPlace
    (t : Nat)
    (place : Place) : CacheSystem :=
  { sys with
    agents :=
      Function.update sys.agents t { sys.agents t with place } }

/-- One thread changes. -/
def setAgent
    (t : Nat)
    (agent : Agent) : CacheSystem :=
  { sys with agents := Function.update sys.agents t agent }

/-- `wque_wakeup`. -/
def wakeAll (waiters : List Nat) : CacheSystem :=
  { sys with
    agents := fun u =>
      if u ∈ waiters then (sys.agents u).wake else sys.agents u }

/--
`lookup_pagecache` with a page that was found: it waits while the page is BUSY, and
takes it otherwise.  A page that it takes off no queue is looked up again.
-/
def enter
    (t frame : Nat)
    (key : PageKey) : Option CacheSystem :=
  match sys.pool.pages frame with
  | none => none
  | some pc =>
      (sys.pool.lookupFound t frame).map fun pool =>
        { sys with pool }.setPlace t
          (if pc.busy = none ∧ frame ∈ sys.pool.lru then
            .loading frame
          else
            .asleep frame key)

/-- The search in `lookup_pagecache`. -/
def find
    (t : Nat)
    (key : PageKey) : Option CacheSystem :=
  match sys.pool.findPage key with
  | none => some (sys.setPlace t (.allocating key))
  | some frame => sys.enter t frame key

/-- A new page cache is registered, or freed when there is one by then. -/
def insert
    (t frame : Nat)
    (key : PageKey) : Option CacheSystem :=
  if (sys.pool.pages frame).isSome then
    none
  else
    match sys.pool.findPage key with
    | some other => sys.enter t other key
    | none =>
        (sys.pool.lookupNew t frame key.bdevid key.offset).map fun pool =>
          { sys with pool }.setPlace t (.loading frame)

/-- The head of a round of `pagecache_shrink_pages`. -/
def shrinkHead
    (t : Nat)
    (vars : ShrinkVars) : Option CacheSystem :=
  match vars.lp with
  | none => some (sys.setPlace t .outside)
  | some _ =>
      (sys.pool.shrinkTake t).map fun (frame, pool) =>
        { sys with pool }.setPlace t (.shrinking .write frame vars)

/-- A round of the shrinker, at one of its points. -/
def shrinkSection
    (t frame : Nat)
    (vars : ShrinkVars) : ShrinkPoint → Option CacheSystem
  | .write =>
      (sys.pool.shrinkWrite t frame).map fun pool =>
        { sys with pool }.setPlace t
          (if vars.wbonly then .shrinkAgain vars else .shrinking .drop frame vars)
  | .drop =>
      (sys.pool.shrinkDrop t frame).map fun pool =>
        { sys with pool }.setPlace t (.shrinking .check frame vars)
  | .check =>
      match sys.pool.shrinkCheck t frame with
      | none => none
      | some (false, pool) =>
          some ({ sys with pool }.setPlace t (.shrinking .free frame vars))
      | some (true, pool) =>
          let vars := vars.advance pool
          some
            (({ sys with pool }.wakeAll (sys.pool.waitersOf frame)).setPlace t
              (if vars.lp = none then .outside else .shrinkUnlocked vars))
  | .free =>
      match sys.pool.decPcacheReference t frame with
      | none => none
      | some (false, pool) =>
          some ({ sys with pool }.setPlace t (.shrinkAgain vars))
      | some (true, pool) =>
          some
            ({ sys with pool }.setPlace t
              (if vars.freeNr + 1 = vars.max then
                .outside
              else
                .shrinkAgain { vars with freeNr := vars.freeNr + 1 }))

/-- The next section of a thread. -/
def runSection (t : Nat) : Option CacheSystem :=
  match (sys.agents t).place with
  | .outside => none
  | .finding key => sys.find t key
  | .asleep _ _ => none
  | .woken frame key => sys.enter t frame key
  | .allocating _ => none
  | .loading frame =>
      some
        (sys.setAgent t
          { place := .outside, held := frame :: (sys.agents t).held })
  | .putting frame =>
      (sys.pool.putEnd frame).map fun pool =>
        ({ sys with pool }.wakeAll (sys.pool.waitersOf frame)).setPlace t
          .outside
  | .shrinking point frame vars => sys.shrinkSection t frame vars point
  | .shrinkAgain vars => sys.shrinkHead t (vars.advance sys.pool)
  | .shrinkUnlocked _ =>
      (sys.pool.shrinkTake t).map fun (_, pool) =>
        { sys with pool }.setPlace t .stopped
  | .stopped => none

/-- A call on a page that the thread holds. -/
def onHeld
    (t frame : Nat)
    (result : Option CacheSystem) : Option CacheSystem :=
  if (sys.agents t).place = .outside ∧ frame ∈ (sys.agents t).held then
    result
  else
    none

end CacheSystem

/-- What happens next, and to which thread. -/
inductive CacheAction where
  /-- `pagecache_get` is called -/
  | get (t : Nat) (key : PageKey)
  /-- the next section of a call -/
  | step (t : Nat)
  /-- a page was allocated, and the lock of the pool is taken again -/
  | insert (t frame : Nat)
  | noMemory (t : Nat)
  /-- an event ends the wait -/
  | event (t : Nat)
  | markDirty (t frame : Nat)
  | write (t frame : Nat)
  /-- `pagecache_put` is called -/
  | put (t frame : Nat)
  /-- `pagecache_shrink_pages` is called -/
  | shrink (t max : Nat) (wbonly : Bool)
deriving Repr, DecidableEq

/-- One step of one thread. -/
def cacheNext (sys : CacheSystem) : CacheAction → Option CacheSystem
  | .get t key =>
      if (sys.agents t).place = .outside then
        some (sys.setPlace t (.finding key))
      else
        none
  | .step t => sys.runSection t
  | .insert t frame =>
      match (sys.agents t).place with
      | .allocating key => sys.insert t frame key
      | _ => none
  | .noMemory t =>
      match (sys.agents t).place with
      | .allocating _ => some (sys.setPlace t .outside)
      | _ => none
  | .event t =>
      match (sys.agents t).place with
      | .asleep frame _ =>
          (sys.pool.leaveWaiters t frame).map fun pool =>
            { sys with pool }.setPlace t .outside
      | _ => none
  | .markDirty t frame =>
      sys.onHeld t frame
        ((sys.pool.pagecacheMarkDirty t frame).map fun pool => { sys with pool })
  | .write t frame =>
      sys.onHeld t frame
        ((sys.pool.pagecacheWrite t frame).map fun pool => { sys with pool })
  | .put t frame =>
      sys.onHeld t frame
        (let held := (sys.agents t).held.erase frame
        match sys.pool.decPcacheReference t frame with
        | none => none
        | some (false, pool) =>
            some ({ sys with pool }.setAgent t { place := .putting frame, held })
        | some (true, pool) =>
            some ({ sys with pool }.setAgent t { place := .outside, held }))
  | .shrink t max wbonly =>
      if (sys.agents t).place = .outside then
        sys.shrinkHead t
          { max
            wbonly
            lp := lruNext sys.pool.lru none
            np := lruNext sys.pool.lru (lruNext sys.pool.lru none)
            freeNr := 0 }
      else
        none

/-- No page is cached, and no thread is in a call. -/
def emptyCache : CacheSystem where
  pool := emptyPool
  agents := fun _ => { place := .outside, held := [] }

/-! ## Which thread keeps a page -/

/-- The page that a call keeps BUSY, with the references that it has by then. -/
def Place.kept : Place → Option (Nat × Nat)
  | .loading frame => some (frame, 2)
  | .putting frame => some (frame, 1)
  | .shrinking .write frame _ => some (frame, 2)
  | .shrinking .drop frame _ => some (frame, 2)
  | .shrinking .check frame _ => some (frame, 1)
  | .shrinking .free frame _ => some (frame, 1)
  | _ => none

/--
A thread keeps a page: it has got the page and is to put it back, or it is in a
call that releases or frees the page before it ends.
-/
def Agent.Keeps
    (agent : Agent)
    (frame refs : Nat) : Prop :=
  (frame ∈ agent.held ∧ refs = 2) ∨ agent.place.kept = some (frame, refs)

/-- A thread has each page once. -/
structure Agent.Once (agent : Agent) : Prop where
  nodup : agent.held.Nodup
  apart : ∀ frame refs, agent.place.kept = some (frame, refs) → frame ∉ agent.held

/-- A registered page cache is in one of the two conditions. -/
inductive PageCondition
    (sys : CacheSystem)
    (frame : Nat)
    (pc : PCache) : Prop where
  /-- BUSY, kept by one thread and off the LRU queue -/
  | busy
      (t : Nat)
      (isBusy : pc.busy = some t)
      (keeps : ∀ u, (∃ refs, (sys.agents u).Keeps frame refs) ↔ u = t)
      (once : (sys.agents t).Once)
      (offLru : frame ∉ sys.pool.lru)
  /-- not BUSY, once on the LRU queue, with the references of pool and queue -/
  | idle
      (notBusy : pc.busy = none)
      (notKept : ∀ u refs, ¬ (sys.agents u).Keeps frame refs)
      (onLru : sys.pool.lru.count frame = 1)
      (refs : pc.refs = 2)

/-- What is to hold of the registered page caches in every state. -/
structure PagesRight (sys : CacheSystem) : Prop where
  conditions :
    ∀ frame ∈ sys.pool.tree,
      ∃ pc, sys.pool.pages frame = some pc ∧ PageCondition sys frame pc
  unique :
    ∀ frame ∈ sys.pool.tree, ∀ other ∈ sys.pool.tree, ∀ pc pc',
      sys.pool.pages frame = some pc → sys.pool.pages other = some pc' →
        pc.key = pc'.key → frame = other

/-- What is to hold of the threads that wait for a page. -/
structure WaitersRight (sys : CacheSystem) : Prop where
  served :
    ∀ frame pc,
      sys.pool.pages frame = some pc → pc.waiters ≠ [] →
        ∃ t refs, pc.busy = some t ∧ (sys.agents t).Keeps frame refs
  notOwn :
    ∀ t frame key pc,
      (sys.agents t).place = .asleep frame key →
        sys.pool.pages frame = some pc → pc.busy ≠ some t
  stillThere :
    ∀ t frame key,
      (sys.agents t).place = .asleep frame key ∨
          (sys.agents t).place = .woken frame key →
        frame ∈ sys.pool.tree ∧
          ∃ pc, sys.pool.pages frame = some pc ∧ pc.key = key

end RiscvWorkshop.PageCache
