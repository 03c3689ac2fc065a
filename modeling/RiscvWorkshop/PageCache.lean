import Mathlib
import RiscvWorkshop.Run

namespace RiscvWorkshop.PageCache

/-!
# The page cache

Page caches are known by the page frames that hold their data.  A page cache
is registered in the tree of the pool, and links its frame into the LRU queue
while nobody uses it.  The functions below are what a thread does to the pool
while it holds the lock of the pool, or to a page cache that it keeps BUSY.
The page mutex is only taken by the thread that keeps the page BUSY.
-/

/-- `page_cache`, with the thread that set `PCACHE_STATE_BUSY` if it is set. -/
structure PCache where
  bdevid : Nat
  offset : Nat
  busy : Option Nat
  clean : Bool
  dirty : Bool
  refs : Nat
  waiters : List Nat
deriving Repr, DecidableEq

/-- `PCACHE_IS_VALID`. -/
def PCache.isValid (pc : PCache) : Bool :=
  pc.clean != pc.dirty

/-- `page_cache_pool`, and the page caches in memory. -/
structure Pool where
  pages : Nat → Option PCache
  tree : List Nat
  lru : List Nat

/-- The entry behind one of the LRU queue; `none` is the queue itself. -/
def lruNext
    (lru : List Nat) :
    Option Nat → Option Nat
  | none => lru.head?
  | some frame =>
      if frame ∈ lru then
        (lru.dropWhile (· ≠ frame)).tail.head?
      else
        -- an entry off every queue is linked to itself
        some frame

namespace Pool

/-- Rewrite one page cache. -/
def setPage
    (pool : Pool)
    (frame : Nat)
    (pc : PCache) : Pool :=
  { pool with pages := Function.update pool.pages frame (some pc) }

/-- `SPLAY_REMOVE` of a page cache, and `free_pagecache_nolock`. -/
def removePage
    (pool : Pool)
    (frame : Nat) : Pool :=
  { pool with
    pages := Function.update pool.pages frame none
    tree := pool.tree.erase frame }

/-- A page cache that a thread keeps BUSY. -/
def ownPage
    (pool : Pool)
    (self frame : Nat) : Option PCache :=
  (pool.pages frame).filter fun pc => pc.busy = some self

variable (self : Nat)
variable (frame : Nat)
variable (pool : Pool)

/--
The section of `lookup_pagecache` that finds a page cache.  One that is off the
LRU queue is made BUSY and looked up again, and is then BUSY.
-/
def lookupFound : Option Pool :=
  match pool.pages frame with
  | none => none
  | some pc =>
      match pc.busy with
      | some _ =>
          some (pool.setPage frame { pc with waiters := pc.waiters ++ [self] })
      | none =>
          if frame ∈ pool.lru then
            if pc.refs - 1 = 0 then
              none
            else
              some
                { pool.setPage frame
                    { pc with busy := some self, refs := pc.refs - 1 + 1 } with
                  lru := pool.lru.erase frame }
          else
            some
              (pool.setPage frame
                { pc with
                  busy := some self
                  waiters := pc.waiters ++ [self] })

/--
The section of `lookup_pagecache` that registers a new page cache, which
`fill_pagecache` fills.  One that is registered by then is looked up again.
-/
def lookupNew
    (bdevid offset : Nat) : Option Pool :=
  if (pool.pages frame).isSome then
    none
  else if
      pool.tree.any fun other =>
        (pool.pages other).any fun pc =>
          pc.bdevid = bdevid ∧ pc.offset = offset then
    some pool
  else
    some
      { pool.setPage frame
          { bdevid
            offset
            busy := some self
            clean := true
            dirty := false
            refs := 2
            waiters := [] } with
        tree := frame :: pool.tree }

/-- `pagecache_mark_dirty`. -/
def pagecacheMarkDirty : Option Pool :=
  (pool.ownPage self frame).map fun pc =>
    pool.setPage frame { pc with clean := false, dirty := true }

/-- `pagecache_write`. -/
def pagecacheWrite : Option Pool :=
  (pool.ownPage self frame).map fun pc =>
    pool.setPage frame { pc with clean := true, dirty := false }

/--
`dec_pcache_reference`, and whether the last reference went.  With waiters the
reference of the pool is set again and the page stays BUSY.
-/
def decPcacheReference : Option (Bool × Pool) :=
  match pool.ownPage self frame with
  | none => none
  | some pc =>
      if pc.refs = 0 then
        none
      else if pc.refs - 1 ≠ 0 then
        some (false, pool.setPage frame { pc with refs := pc.refs - 1 })
      else if pc.waiters ≠ [] then
        some (false, pool.setPage frame { pc with refs := 1 })
      else if pc.dirty = false ∧ pc.clean = false ∨ frame ∉ pool.tree then
        none
      else
        some (true, pool.removePage frame)

/-- `pagecache_put`. -/
def pagecachePut : Option Pool :=
  match pool.decPcacheReference self frame with
  | none => none
  | some (true, pool) => some pool
  | some (false, pool) =>
      match pool.pages frame with
      | none => none
      | some pc =>
          if pc.refs = 0 then
            none
          else
            some
              { pool.setPage frame
                  { pc with refs := pc.refs + 1, busy := none, waiters := [] }
                with lru := pool.lru ++ [frame] }

/-- A waiter that an event takes off the wait queue. -/
def leaveWaiters : Option Pool :=
  (pool.pages frame).map fun pc =>
    pool.setPage frame { pc with waiters := pc.waiters.erase self }

/-! ## The sections of the shrinker -/

/--
The head of a round of `pagecache_shrink_pages`: the first page of the LRU queue
is made BUSY, and the reference of the queue becomes that of the shrinker.
-/
def shrinkTake : Option (Nat × Pool) :=
  match pool.lru with
  | [] => none
  | frame :: rest =>
      match pool.pages frame with
      | none => none
      | some pc =>
          if pc.busy ≠ none ∨ pc.refs = 0 ∨ pc.refs + 1 - 1 = 0 then
            none
          else
            some
              (frame,
                { pool.setPage frame
                    { pc with busy := some self, refs := pc.refs + 1 - 1 } with
                  lru := rest })

/-- A round writes a page back that is dirty. -/
def shrinkWrite : Option Pool :=
  match pool.ownPage self frame with
  | none => none
  | some pc => if pc.dirty then pool.pagecacheWrite self frame else some pool

/-- The reference of the shrinker goes; the page must be clean. -/
def shrinkDrop : Option Pool :=
  match pool.ownPage self frame with
  | none => none
  | some pc =>
      if pc.refs - 1 = 0 ∨ pc.clean = false then
        none
      else
        some (pool.setPage frame { pc with refs := pc.refs - 1 })

/-- With waiters the page is given up, and they are woken. -/
def shrinkCheck : Option (Bool × Pool) :=
  match pool.ownPage self frame with
  | none => none
  | some pc =>
      if pc.waiters = [] then
        some (false, pool)
      else
        some (true, pool.setPage frame { pc with busy := none, waiters := [] })

end Pool

end RiscvWorkshop.PageCache
