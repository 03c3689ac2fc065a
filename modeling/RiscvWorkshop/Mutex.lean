import Mathlib
import RiscvWorkshop.Run
import RiscvWorkshop.KernelBase

namespace RiscvWorkshop.Mutex

/-!
# One mutex and its callers

What a thread of the kernel does with one mutex is a path of mutex calls and
assertions, with a branch where the mutex does not decide.  A function of the
kernel puts its calls in front of those of its caller.  Any number of threads
follow their paths, one section under the lock of the mutex at a time.
-/

/-- The calls of `mutex_lock`, by the function that makes them. -/
inductive Site where
  | halCopyKernelPgtbl
  | vmStrlen
  | vmMemmoveDest
  | vmMemmoveSrc
  | vmCopyRangeDest
  | vmCopyRangeSrc
  | vmUnmap
  | vmMapUserpage
  | pgtblAllocUserPgtbl
  | pgtblFreeUserPgtbl
  | fillPagecache
  | lookupPagecache
  | decPcacheReference
  | pagecacheWrite
  | pagecacheShrinkPages
  | wqueWaitOnEventWithMutex
  | eventWaiter
deriving Repr, DecidableEq

/--
What a thread still does with the mutex.  `lock` and `tryLock` go on by the
result, `stop` is an assertion that fails.
-/
inductive MutexUse where
  | done
  | stop
  | lock (site : Site) (ok failed : MutexUse)
  | tryLock (ok failed : MutexUse)
  | unlock (next : MutexUse)
  | assertLocked (next : MutexUse)
  | assertUnlocked (next : MutexUse)
  | choose (left right : MutexUse)
deriving Repr, DecidableEq

/-! ## The callers -/

/-- Return on failure; else unlock when done, on success and on later errors. -/
def lockedSection
    (site : Site)
    (next : MutexUse) : MutexUse :=
  .lock site (.unlock next) next

/-- `hal_copy_kernel_pgtbl`; the table of the kernel itself is not locked. -/
def halCopyKernelPgtbl
    (isKernel : Bool)
    (next : MutexUse) : MutexUse :=
  if isKernel then
    next
  else
    .lock .halCopyKernelPgtbl (.unlock next) (.unlock next)

/-- `vm_strlen`. -/
def vmStrlen : MutexUse → MutexUse :=
  lockedSection .vmStrlen

/-- `vm_unmap`. -/
def vmUnmap : MutexUse → MutexUse :=
  lockedSection .vmUnmap

/-- `vm_map_userpage`. -/
def vmMapUserpage : MutexUse → MutexUse :=
  lockedSection .vmMapUserpage

/-- `pgtbl_alloc_user_pgtbl`, the mutex of the new table. -/
def pgtblAllocUserPgtbl : MutexUse → MutexUse :=
  lockedSection .pgtblAllocUserPgtbl

/-- `pgtbl_free_user_pgtbl`, which asserts that it got the mutex. -/
def pgtblFreeUserPgtbl (next : MutexUse) : MutexUse :=
  .lock .pgtblFreeUserPgtbl (.unlock next) .stop

/-- Whose mutex it is when two page tables are locked. -/
inductive TableRole where
  | dest
  | src
  | both
deriving Repr, DecidableEq

/--
Two page tables, the destination first.  A source that is not the destination
is locked when that worked.
-/
def lockTables
    (dest src : Site)
    (next : MutexUse) : TableRole → MutexUse
  | .dest => lockedSection dest next
  | .src => .choose next (lockedSection src next)
  | .both => lockedSection dest next

/-- `vm_memmove`. -/
def vmMemmove
    (role : TableRole)
    (next : MutexUse) : MutexUse :=
  lockTables .vmMemmoveDest .vmMemmoveSrc next role

/-- `vm_copy_range`. -/
def vmCopyRange
    (role : TableRole)
    (next : MutexUse) : MutexUse :=
  lockTables .vmCopyRangeDest .vmCopyRangeSrc next role

/-- `fill_pagecache`. -/
def fillPagecache (next : MutexUse) : MutexUse :=
  .assertLocked (.unlock (.lock .fillPagecache next next))

/-- `lookup_pagecache` of a page that is there or gets filled. -/
def lookupPagecache (next : MutexUse) : MutexUse :=
  let filled := .choose (fillPagecache next) next
  .lock .lookupPagecache filled filled

/-- `pagecache_get`. -/
def pagecacheGet (next : MutexUse) : MutexUse :=
  lookupPagecache (.assertLocked next)

/-- `pagecache_mark_dirty`. -/
def pagecacheMarkDirty (next : MutexUse) : MutexUse :=
  .assertLocked next

/-- `pagecache_write`. -/
def pagecacheWrite (next : MutexUse) : MutexUse :=
  .assertLocked (.unlock (.lock .pagecacheWrite next next))

/-- `free_pagecache_nolock`. -/
def freePagecacheNolock (next : MutexUse) : MutexUse :=
  .assertUnlocked next

/--
`dec_pcache_reference`: not the last reference, or a waiter, or a page that is
written back if it is dirty and then freed.
-/
def decPcacheReference (next : MutexUse) : MutexUse :=
  let free := freePagecacheNolock next
  let written := pagecacheWrite (.unlock free)
  .assertUnlocked <|
    .choose next <|
      .choose next <|
        .choose (.lock .decPcacheReference written written) free

/-- `pagecache_put`. -/
def pagecachePut (next : MutexUse) : MutexUse :=
  .assertLocked (.unlock (decPcacheReference next))

/-- One page of `pagecache_shrink_pages`. -/
def pagecacheShrinkPages (next : MutexUse) : MutexUse :=
  let tidy := .unlock (.choose next (decPcacheReference next))
  let taken := .choose (pagecacheWrite tidy) tidy
  .lock .pagecacheShrinkPages taken taken

/-- `wque_wait_on_event_with_mutex`. -/
def wqueWaitOnEventWithMutex (next : MutexUse) : MutexUse :=
  .unlock (.lock .wqueWaitOnEventWithMutex next next)

/-- What the owner of a page does with it. -/
inductive PageOp where
  | markDirty
  | write
deriving Repr, DecidableEq

/-- One operation on a page that is held. -/
def PageOp.use : PageOp → MutexUse → MutexUse
  | .markDirty => pagecacheMarkDirty
  | .write => pagecacheWrite

/-- The callers of the kernel, and holders that wait for events. -/
inductive Caller where
  | halCopyKernelPgtbl (isKernel : Bool)
  | vmStrlen
  | vmMemmove (role : TableRole)
  | vmCopyRange (role : TableRole)
  | vmUnmap
  | vmMapUserpage
  | pgtblAllocUserPgtbl
  | pgtblFreeUserPgtbl
  | pagecache (ops : List PageOp)
  | pagecacheShrinkPages
  | lockAndWait (waits : Nat)
  | tryLockAndWait (waits : Nat)
deriving Repr, DecidableEq

/-- Wait for events, then unlock. -/
def waitAndUnlock : Nat → MutexUse
  | 0 => .unlock .done
  | waits + 1 => wqueWaitOnEventWithMutex (waitAndUnlock waits)

/-- The path of a caller. -/
def Caller.use : Caller → MutexUse
  | .halCopyKernelPgtbl isKernel =>
      Mutex.halCopyKernelPgtbl isKernel .done
  | .vmStrlen => Mutex.vmStrlen .done
  | .vmMemmove role => Mutex.vmMemmove role .done
  | .vmCopyRange role => Mutex.vmCopyRange role .done
  | .vmUnmap => Mutex.vmUnmap .done
  | .vmMapUserpage => Mutex.vmMapUserpage .done
  | .pgtblAllocUserPgtbl => Mutex.pgtblAllocUserPgtbl .done
  | .pgtblFreeUserPgtbl => Mutex.pgtblFreeUserPgtbl .done
  | .pagecache ops => pagecacheGet (ops.foldr PageOp.use (pagecachePut .done))
  | .pagecacheShrinkPages =>
      Mutex.pagecacheShrinkPages .done
  | .lockAndWait waits => .lock .eventWaiter (waitAndUnlock waits) .done
  | .tryLockAndWait waits => .tryLock (waitAndUnlock waits) .done

/-! ## The mutex -/

/--
A thread on its path.  In `mutex_lock` after it went to sleep it has the reason
of its wait queue entry.
-/
inductive Activity where
  | running (todo : MutexUse)
  | locking (reason : WqueReason) (site : Site) (ok failed : MutexUse)
deriving Repr, DecidableEq

/--
A mutex, the threads on its wait queue, what every thread does, and the threads
that locked the mutex and did not unlock it since.
-/
structure MutexSystem where
  resources : Nat
  wque : List Nat
  threads : Nat → Activity
  holders : List Nat

/-- `mutex_init`, before the first call. -/
def mutexInit : MutexSystem where
  resources := 1
  wque := []
  threads := fun _ => .running .done
  holders := []

/-- The reason is written to the entry of a sleeping thread. -/
def Activity.wake
    (reason : WqueReason) : Activity → Activity
  | .running todo => .running todo
  | .locking _ site ok failed => .locking reason site ok failed

namespace MutexSystem

/-- What one thread does next. -/
def setThread
    (sys : MutexSystem)
    (thr : Nat)
    (activity : Activity) : MutexSystem :=
  { sys with threads := Function.update sys.threads thr activity }

@[simp]
theorem setThread_self
    (sys : MutexSystem)
    (thr : Nat)
    (activity : Activity) :
    (sys.setThread thr activity).threads thr = activity :=
  Function.update_self ..

theorem setThread_of_ne
    (sys : MutexSystem)
    {thr other : Nat}
    (different : other ≠ thr)
    (activity : Activity) :
    (sys.setThread thr activity).threads other = sys.threads other :=
  Function.update_of_ne different ..

/-- `wque_wakeup` of all threads on the wait queue. -/
def wqueWakeup
    (sys : MutexSystem)
    (reason : WqueReason) : MutexSystem :=
  { sys with
    wque := []
    threads := fun thr =>
      if thr ∈ sys.wque then
        (sys.threads thr).wake reason
      else
        sys.threads thr }

/-- `lock_mutex_common`. -/
def lockMutexCommon
    (sys : MutexSystem)
    (thr : Nat) : Except Errno MutexSystem :=
  if sys.resources = 0 then
    .error .eagain
  else
    .ok
      { sys with
        resources := sys.resources - 1
        holders := thr :: sys.holders }

/-- One round of the loop of `mutex_lock`: take the mutex or go to sleep. -/
def mutexLock
    (sys : MutexSystem)
    (thr : Nat)
    (site : Site)
    (ok failed : MutexUse) : MutexSystem :=
  match sys.lockMutexCommon thr with
  | .ok sys => sys.setThread thr (.running ok)
  | .error _ =>
      { sys with wque := sys.wque ++ [thr] }.setThread thr
        (.locking .wait site ok failed)

/-- `mutex_try_lock`. -/
def mutexTryLock
    (sys : MutexSystem)
    (thr : Nat)
    (ok failed : MutexUse) : MutexSystem :=
  match sys.lockMutexCommon thr with
  | .ok sys => sys.setThread thr (.running ok)
  | .error _ => sys.setThread thr (.running failed)

/-- `mutex_unlock`, which does not ask who holds the mutex. -/
def mutexUnlock
    (sys : MutexSystem)
    (thr : Nat) : MutexSystem :=
  { sys with
    resources := (sys.resources + 1) % 2 ^ 32
    holders := sys.holders.erase thr }.wqueWakeup .released

/-- `mutex_destroy`. -/
def mutexDestroy (sys : MutexSystem) : MutexSystem :=
  { sys.wqueWakeup .destroyed with resources := 0 }

/-- `mutex_locked_by_self`, which does not ask who holds the mutex either. -/
def mutexLockedBySelf (sys : MutexSystem) : Bool :=
  sys.resources = 0

/-- A thread goes on along its path; `left` decides the branches. -/
def advance
    (sys : MutexSystem)
    (thr : Nat)
    (left : Bool) : Option MutexSystem :=
  match sys.threads thr with
  | .running .done => none
  | .running .stop => none
  | .running (.lock site ok failed) => some (sys.mutexLock thr site ok failed)
  | .running (.tryLock ok failed) => some (sys.mutexTryLock thr ok failed)
  | .running (.unlock next) =>
      some ((sys.mutexUnlock thr).setThread thr (.running next))
  | .running (.assertLocked next) =>
      if sys.mutexLockedBySelf then
        some (sys.setThread thr (.running next))
      else
        none
  | .running (.assertUnlocked next) =>
      if sys.mutexLockedBySelf then
        none
      else
        some (sys.setThread thr (.running next))
  | .running (.choose yes no) =>
      some (sys.setThread thr (.running (if left then yes else no)))
  | .locking .destroyed _ _ failed =>
      some (sys.setThread thr (.running failed))
  | .locking .delivev _ _ failed =>
      some (sys.setThread thr (.running failed))
  | .locking .released site ok failed =>
      some (sys.mutexLock thr site ok failed)
  | .locking .wait _ _ _ => none
  | .locking .timeout _ _ _ => none

end MutexSystem

/-- What happens: a thread that is done calls, or goes on; the rest is outside. -/
inductive MutexAction where
  | call (thr : Nat) (caller : Caller)
  | advance (thr : Nat) (left : Bool)
  | destroy
  | deliver
deriving Repr, DecidableEq

/-- One section under the lock of the mutex. -/
def mutexNext (sys : MutexSystem) : MutexAction → Option MutexSystem
  | .call thr caller =>
      if sys.threads thr = .running .done then
        some (sys.setThread thr (.running caller.use))
      else
        none
  | .advance thr left => sys.advance thr left
  | .destroy => some sys.mutexDestroy
  | .deliver => some (sys.wqueWakeup .delivev)

end RiscvWorkshop.Mutex
