import Mathlib
import RiscvWorkshop.KernelBase

namespace RiscvWorkshop.Pfdb

/-!
# The buddy pool of one memory region

The page frames of a region, the per-order page lists, and the functions that
move pages between them.  A function of the source that can stop at `kassert`
returns an option, and `none` is the stop.  Pages are named by their index in
the page frame array of the region.
-/

/-- `PAGE_POOL_MAX_ORDER`: page orders stay below this bound. -/
def pagePoolMaxOrder : Nat := 11

/-- The uses a page can be handed out for. -/
inductive PageUsage where
  | kern
  | kstack
  | pgtbl
  | slab
  | anon
  | pcache
deriving Repr, DecidableEq

/-- The fields of `struct _page_frame` that the page pool reads and writes. -/
structure PageFrame where
  used : Bool
  reserved : Bool
  clustered : Bool
  usecase : PageUsage → Bool
  pfn : Nat
  usecnt : Int32
  mapcnt : Int32
  order : Nat
  headp : Option Nat

/-- `PAGE_STATE_NOT_FREED`: the page is in use or reserved. -/
def PageFrame.notFreed (pf : PageFrame) : Bool :=
  pf.used || pf.reserved

/--
`page_buddy`: the page lists of the orders, oldest page first, and the page
frame array.
-/
structure PageBuddy where
  freeNr : Nat → Int
  pageList : Nat → List Nat
  nrPages : Nat
  availablePages : Nat
  usagePages : PageUsage → UInt64
  array : Nat → PageFrame

namespace PageBuddy

/-- Rewrite one page frame of the array. -/
def modify
    (pool : PageBuddy)
    (idx : Nat)
    (change : PageFrame → PageFrame) : PageBuddy :=
  { pool with
    array := Function.update pool.array idx (change (pool.array idx)) }

@[simp] theorem modify_array_self
    (pool : PageBuddy)
    (idx : Nat)
    (change : PageFrame → PageFrame) :
    (pool.modify idx change).array idx = change (pool.array idx) := by
  simp [modify]

@[simp] theorem modify_array_of_ne
    {other idx : Nat}
    (different : other ≠ idx)
    (pool : PageBuddy)
    (change : PageFrame → PageFrame) :
    (pool.modify idx change).array other = pool.array other := by
  simp [modify, different]

/-- Write the order of a page frame. -/
def setOrder
    (pool : PageBuddy)
    (idx order : Nat) : PageBuddy :=
  pool.modify idx fun pf => { pf with order }

/-- `queue_add` to a page list, with the count of its free blocks. -/
def queueAdd
    (pool : PageBuddy)
    (order idx : Nat) : PageBuddy :=
  { pool with
    pageList :=
      Function.update pool.pageList order (pool.pageList order ++ [idx])
    freeNr := Function.update pool.freeNr order (pool.freeNr order + 1) }

/--
`queue_del` of a page, with the count of the free blocks of `order`.  The node
leaves whichever list links it.
-/
def queueDel
    (pool : PageBuddy)
    (order idx : Nat) : PageBuddy :=
  { pool with
    pageList := fun other => (pool.pageList other).erase idx
    freeNr := Function.update pool.freeNr order (pool.freeNr order - 1) }

/-- `queue_get_top` of a page list whose remaining nodes are `rest`. -/
def queueGetTop
    (pool : PageBuddy)
    (order : Nat)
    (rest : List Nat) : PageBuddy :=
  { pool with
    pageList := Function.update pool.pageList order rest
    freeNr := Function.update pool.freeNr order (pool.freeNr order - 1) }

/-- Rewrite the page frames of a cluster, headed by a page of the given order. -/
def modifyCluster
    (pool : PageBuddy)
    (idx order : Nat)
    (change : PageFrame → PageFrame) : PageBuddy :=
  { pool with
    array := fun page =>
      if idx ≤ page ∧ page < idx + 2 ^ order then change (pool.array page)
      else pool.array page }

end PageBuddy

/-- `mark_page_usage`: note the use of a page and count its pages. -/
def markPageUsage
    (pool : PageBuddy)
    (idx : Nat)
    (usage : PageUsage) : PageBuddy :=
  let pages := UInt64.ofNat (1 <<< (pool.array idx).order)
  let pool := pool.modify idx fun pf =>
    { pf with usecase := Function.update pf.usecase usage true }
  { pool with
    usagePages :=
      Function.update pool.usagePages usage (pool.usagePages usage + pages) }

/-- `unmark_page_usage`: drop every noted use of a page from the counts. -/
def unmarkPageUsage
    (pool : PageBuddy)
    (idx : Nat) : PageBuddy :=
  let pages := UInt64.ofNat (1 <<< (pool.array idx).order)
  let usecase := (pool.array idx).usecase
  let pool := pool.modify idx fun pf => { pf with usecase := fun _ => false }
  { pool with
    usagePages := fun usage =>
      if usecase usage then pool.usagePages usage - pages
      else pool.usagePages usage }

/-- `setup_clustered_pages`: point every page of a cluster at its head. -/
def setupClusteredPages
    (pool : PageBuddy)
    (idx : Nat) : PageBuddy :=
  if (pool.array idx).order = 0 then
    pool.modify idx fun pf => { pf with clustered := false, headp := none }
  else
    pool.modifyCluster idx (pool.array idx).order fun pf =>
      { pf with clustered := true, headp := some idx }

/-- `clear_clustered_pages`: the pages no longer belong to a cluster. -/
def clearClusteredPages
    (pool : PageBuddy)
    (idx : Nat) : PageBuddy :=
  pool.modifyCluster idx (pool.array idx).order fun pf =>
    { pf with clustered := false, headp := none }

/-- The loop of `adjust_page_order`, counting `cur_order` down. -/
def adjustPageOrderLoop
    (requestOrder idx : Nat) :
    Nat → PageBuddy → Option PageBuddy
  | 0, pool => some pool
  | curOrder + 1, pool =>
      if requestOrder < curOrder + 1 then
        let buddyIdx := idx ^^^ (1 <<< curOrder)
        if buddyIdx < pool.nrPages then
          let pool := pool.setOrder buddyIdx curOrder
          let pool := pool.queueAdd curOrder buddyIdx
          adjustPageOrderLoop requestOrder idx curOrder
            (pool.setOrder idx curOrder)
        else
          none
      else
        some pool

/-- `adjust_page_order`: give the upper halves of a block back. -/
def adjustPageOrder
    (pool : PageBuddy)
    (idx requestOrder : Nat) : Option PageBuddy :=
  match adjustPageOrderLoop requestOrder idx (pool.array idx).order pool with
  | none => none
  | some pool =>
      if (pool.array idx).order = requestOrder then some pool else none

/-- The bits of an index that the order mask keeps. -/
def maskOrder (order idx : Nat) : Nat :=
  (idx >>> order) <<< order

/--
The loop of `enqueue_page_to_buddy_pool` from `cur_order` on, with the number
of orders left.  The result is the index of the block to be linked.
-/
def enqueueLoop :
    Nat → Nat → Nat → PageBuddy → Option (Nat × PageBuddy)
  | 0, _, curIdx, pool => some (curIdx, pool)
  | remaining + 1, curOrder, curIdx, pool =>
      if curIdx < pool.nrPages then
        let pool := pool.setOrder curIdx curOrder
        let buddyIdx := curIdx ^^^ (1 <<< curOrder)
        if curOrder ≥ pagePoolMaxOrder - 1 then
          some (curIdx, pool)
        else if buddyIdx ≥ pool.nrPages then
          some (curIdx, pool)
        else if (pool.array curIdx).order ≠ (pool.array buddyIdx).order then
          some (curIdx, pool)
        else if (pool.array buddyIdx).notFreed then
          some (curIdx, pool)
        else
          enqueueLoop remaining (curOrder + 1)
            (maskOrder (curOrder + 1) curIdx)
            (pool.queueDel (pool.array buddyIdx).order buddyIdx)
      else
        none

/-- `enqueue_page_to_buddy_pool`: merge a page with its free buddies and link it. -/
def enqueuePageToBuddyPool
    (pool : PageBuddy)
    (reqPage : Nat) : Option PageBuddy :=
  let order := (pool.array reqPage).order
  if order < pagePoolMaxOrder then
    if maskOrder order reqPage = reqPage then
      let pool := unmarkPageUsage pool reqPage
      let pool := pool.modify reqPage fun pf => { pf with used := false }
      match enqueueLoop (pagePoolMaxOrder - order) order reqPage pool with
      | none => none
      | some (curIdx, pool) =>
          if curIdx < pool.nrPages ∧
              (pool.array curIdx).order < pagePoolMaxOrder then
            let pool := clearClusteredPages pool curIdx
            some (pool.queueAdd (pool.array curIdx).order curIdx)
          else
            none
    else
      none
  else
    none

/--
The loop of `dequeue_page_from_memory_area` from `cur_order` on, with the
number of orders left.
-/
def dequeueLoop
    (order : Nat)
    (usage : PageUsage) :
    Nat → Nat → PageBuddy → Option (Except Errno Nat × PageBuddy)
  | 0, _, pool => some (.error .enomem, pool)
  | remaining + 1, curOrder, pool =>
      match pool.pageList curOrder with
      | [] => dequeueLoop order usage remaining (curOrder + 1) pool
      | curPage :: rest =>
          match adjustPageOrder (pool.queueGetTop curOrder rest)
              curPage order with
          | none => none
          | some pool =>
              let pool := setupClusteredPages pool curPage
              let pool := markPageUsage pool curPage usage
              let pool := pool.modify curPage fun pf =>
                { pf with used := true, usecnt := 1 }
              some (.ok (pool.array curPage).pfn, pool)

/-- `dequeue_page_from_memory_area`: take a block of an order out of a region. -/
def dequeuePageFromMemoryArea
    (pool : PageBuddy)
    (order : Nat)
    (usage : PageUsage) : Option (Except Errno Nat × PageBuddy) :=
  if order ≥ pagePoolMaxOrder then
    some (.error .einval, pool)
  else
    dequeueLoop order usage (pagePoolMaxOrder - order) order pool

end RiscvWorkshop.Pfdb
