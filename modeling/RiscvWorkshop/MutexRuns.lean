import Mathlib
import RiscvWorkshop.Mutex

namespace RiscvWorkshop.Mutex

/-!
# Who holds the mutex

Every caller unlocks what it locked on the paths where its locks work.  Some
callers unlock as well when a lock failed, so the mutex is held by one thread
at most as long as none of these is woken with a failure.
-/

/-- The calls of `mutex_lock` after which the mutex is not unlocked if they fail. -/
def Site.tested : Site → Bool
  | .halCopyKernelPgtbl => false
  | .fillPagecache => false
  | .lookupPagecache => false
  | .decPcacheReference => false
  | .pagecacheWrite => false
  | .pagecacheShrinkPages => false
  | .wqueWaitOnEventWithMutex => false
  | _ => true

/-- A thread that is woken with a failure gets it from a call that is tested. -/
def Activity.tested : Activity → Bool
  | .running _ => true
  | .locking _ site _ _ => site.tested

/--
The mutex is not destroyed, and no event delivered to its waiters, while a
waiter would unlock regardless.
-/
def FailureTested (sys : MutexSystem) : MutexAction → Prop
  | .destroy => ∀ thr ∈ sys.wque, (sys.threads thr).tested = true
  | .deliver => ∀ thr ∈ sys.wque, (sys.threads thr).tested = true
  | .call _ _ => True
  | .advance _ _ => True

instance (sys : MutexSystem) : ∀ action, Decidable (FailureTested sys action)
  | .destroy => inferInstanceAs (Decidable (∀ thr ∈ _, _))
  | .deliver => inferInstanceAs (Decidable (∀ thr ∈ _, _))
  | .call _ _ => inferInstanceAs (Decidable True)
  | .advance _ _ => inferInstanceAs (Decidable True)

/--
One holder at most, `resources` in {0, 1}, and no thread about to unlock that
does not hold the mutex.
-/
structure MutualExclusion (sys : MutexSystem) : Prop where
  holders : sys.holders.length ≤ 1
  resources : sys.resources = 0 ∨ sys.resources = 1
  unlocks : ∀ thr next,
    sys.threads thr = .running (.unlock next) → thr ∈ sys.holders

/-! ## Balanced paths -/

/--
A path of a thread that holds the mutex or not: locks and unlocks alternate.
After a failure that is not tested the path is one of a holder.
-/
def Balanced : Bool → MutexUse → Prop
  | holds, .done => holds = false
  | holds, .stop => holds = false
  | holds, .lock site ok failed =>
      holds = false ∧ Balanced true ok ∧ Balanced (!site.tested) failed
  | holds, .tryLock ok failed =>
      holds = false ∧ Balanced true ok ∧ Balanced false failed
  | holds, .unlock next => holds = true ∧ Balanced false next
  | holds, .assertLocked next => holds = true ∧ Balanced true next
  | holds, .assertUnlocked next => holds = false ∧ Balanced false next
  | holds, .choose left right => Balanced holds left ∧ Balanced holds right

section Callers

variable {next : MutexUse}

/-- A function that tests its lock. -/
theorem balanced_lockedSection
    {site : Site}
    (tested : site.tested = true)
    (after : Balanced false next) :
    Balanced false (lockedSection site next) := by
  refine ⟨rfl, ⟨rfl, after⟩, ?_⟩
  rw [tested]
  exact after

/-- A function that tests its locks of two page tables. -/
theorem balanced_lockTables
    {dest src : Site}
    (destTested : dest.tested = true)
    (srcTested : src.tested = true)
    (after : Balanced false next)
    (role : TableRole) :
    Balanced false (lockTables dest src next role) := by
  cases role with
  | dest => exact balanced_lockedSection destTested after
  | src => exact ⟨after, balanced_lockedSection srcTested after⟩
  | both => exact balanced_lockedSection destTested after

/-- A page is filled without the mutex, which is then taken to be held again. -/
theorem balanced_fillPagecache
    (after : Balanced true next) :
    Balanced true (fillPagecache next) :=
  ⟨rfl, rfl, rfl, after, after⟩

/-- A page is written without the mutex, which is then taken to be held again. -/
theorem balanced_pagecacheWrite
    (after : Balanced true next) :
    Balanced true (pagecacheWrite next) :=
  ⟨rfl, rfl, rfl, after, after⟩

theorem balanced_pagecacheGet
    (after : Balanced true next) :
    Balanced false (pagecacheGet next) := by
  have held : Balanced true (.assertLocked next) := ⟨rfl, after⟩
  have filled :
      Balanced true (.choose (fillPagecache (.assertLocked next))
        (.assertLocked next)) :=
    ⟨balanced_fillPagecache held, held⟩
  exact ⟨rfl, filled, filled⟩

theorem balanced_decPcacheReference
    (after : Balanced false next) :
    Balanced false (decPcacheReference next) := by
  have free : Balanced false (freePagecacheNolock next) := ⟨rfl, after⟩
  have written :
      Balanced true (pagecacheWrite (.unlock (freePagecacheNolock next))) :=
    balanced_pagecacheWrite ⟨rfl, free⟩
  exact ⟨rfl, after, after, ⟨rfl, written, written⟩, free⟩

theorem balanced_pagecachePut
    (after : Balanced false next) :
    Balanced true (pagecachePut next) :=
  ⟨rfl, rfl, balanced_decPcacheReference after⟩

theorem balanced_pagecacheShrinkPages
    (after : Balanced false next) :
    Balanced false (pagecacheShrinkPages next) := by
  have tidy :
      Balanced true (.unlock (.choose next (decPcacheReference next))) :=
    ⟨rfl, after, balanced_decPcacheReference after⟩
  have taken :
      Balanced true
        (.choose
          (pagecacheWrite (.unlock (.choose next (decPcacheReference next))))
          (.unlock (.choose next (decPcacheReference next)))) :=
    ⟨balanced_pagecacheWrite tidy, tidy⟩
  exact ⟨rfl, taken, taken⟩

/-- The owner of a page may change and write it as often as it likes. -/
theorem balanced_pageOps
    (after : Balanced true next)
    (ops : List PageOp) :
    Balanced true (ops.foldr PageOp.use next) := by
  induction ops with
  | nil =>
      exact after
  | cons op rest inductionHypothesis =>
      cases op with
      | markDirty => exact ⟨rfl, inductionHypothesis⟩
      | write => exact balanced_pagecacheWrite inductionHypothesis

theorem balanced_waitAndUnlock
    (waits : Nat) :
    Balanced true (waitAndUnlock waits) := by
  induction waits with
  | zero =>
      exact ⟨rfl, rfl⟩
  | succ waits inductionHypothesis =>
      exact ⟨rfl, rfl, inductionHypothesis, inductionHypothesis⟩

/-- Every caller unlocks what it locked if its untested locks work. -/
theorem balanced_caller
    (caller : Caller) :
    Balanced false caller.use := by
  have done : Balanced false .done := rfl
  cases caller with
  | halCopyKernelPgtbl isKernel =>
      cases isKernel with
      | true => exact done
      | false => exact ⟨rfl, ⟨rfl, done⟩, ⟨rfl, done⟩⟩
  | vmStrlen => exact balanced_lockedSection rfl done
  | vmMemmove role => exact balanced_lockTables rfl rfl done role
  | vmCopyRange role => exact balanced_lockTables rfl rfl done role
  | vmUnmap => exact balanced_lockedSection rfl done
  | vmMapUserpage => exact balanced_lockedSection rfl done
  | pgtblAllocUserPgtbl => exact balanced_lockedSection rfl done
  | pgtblFreeUserPgtbl => exact ⟨rfl, ⟨rfl, done⟩, rfl⟩
  | pagecache ops =>
      exact balanced_pagecacheGet
        (balanced_pageOps (balanced_pagecachePut done) ops)
  | pagecacheShrinkPages => exact balanced_pagecacheShrinkPages done
  | lockAndWait waits =>
      exact ⟨rfl, balanced_waitAndUnlock waits, done⟩
  | tryLockAndWait waits =>
      exact ⟨rfl, balanced_waitAndUnlock waits, done⟩

end Callers

/-! ## The invariant -/

/-- Reasons that make `mutex_lock` fail. -/
def Fails (reason : WqueReason) : Prop :=
  reason = .destroyed ∨ reason = .delivev

/-- A thread on a path that fits what it holds. -/
def Activity.Sound (holds : Bool) : Activity → Prop
  | .running todo => Balanced holds todo
  | .locking reason site ok failed =>
      holds = false ∧ Balanced true ok ∧ Balanced (!site.tested) failed ∧
        (Fails reason → site.tested = true)

/-- A thread that holds the mutex. -/
def MutexSystem.holds
    (sys : MutexSystem)
    (thr : Nat) : Bool :=
  decide (thr ∈ sys.holders)

/--
The mutex is free or held once, threads wait for one that is not free, and
every thread knows if it holds it.
-/
structure MutexSound (sys : MutexSystem) : Prop where
  room : sys.resources + sys.holders.length ≤ 1
  waiters : sys.wque ≠ [] → sys.resources = 0
  threads : ∀ thr, (sys.threads thr).Sound (sys.holds thr)

section Steps

variable {sys after : MutexSystem}
variable {thr : Nat}

/-- A thread goes on without the mutex. -/
theorem MutexSound.setThread
    (sound : MutexSound sys)
    {activity : Activity}
    (fits : activity.Sound (sys.holds thr)) :
    MutexSound (sys.setThread thr activity) := by
  refine ⟨sound.room, sound.waiters, fun other => ?_⟩
  by_cases same : other = thr
  · rw [same, MutexSystem.setThread_self]
    exact fits
  · rw [sys.setThread_of_ne same]
    exact sound.threads other

/-- A thread takes the mutex when it is free. -/
theorem MutexSound.take
    (sound : MutexSound sys)
    (free : sys.resources ≠ 0)
    {ok : MutexUse}
    (fits : Balanced true ok) :
    MutexSound
      ({ sys with
          resources := sys.resources - 1
          holders := thr :: sys.holders : MutexSystem }.setThread thr
        (.running ok)) := by
  have room := sound.room
  let taken : MutexSystem :=
    { sys with
      resources := sys.resources - 1
      holders := thr :: sys.holders }
  refine ⟨?_, fun _ => ?_, fun other => ?_⟩
  · change sys.resources - 1 + (sys.holders.length + 1) ≤ 1
    omega
  · change sys.resources - 1 = 0
    omega
  · change ((taken.setThread thr (.running ok)).threads other).Sound
      (taken.holds other)
    by_cases same : other = thr
    · have held : taken.holds thr = true :=
        decide_eq_true List.mem_cons_self
      rw [same, MutexSystem.setThread_self, held]
      exact fits
    · have others : taken.holds other = sys.holds other :=
        decide_eq_decide.mpr (by rw [List.mem_cons, or_iff_right same])
      rw [taken.setThread_of_ne same, others]
      exact sound.threads other

/-- One round of `mutex_lock`. -/
theorem MutexSound.mutexLock
    (sound : MutexSound sys)
    {site : Site}
    {ok failed : MutexUse}
    (free : thr ∉ sys.holders)
    (locked : Balanced true ok)
    (notLocked : Balanced (!site.tested) failed) :
    MutexSound (sys.mutexLock thr site ok failed) := by
  rw [MutexSystem.mutexLock, MutexSystem.lockMutexCommon]
  by_cases busy : sys.resources = 0
  · rw [if_pos busy]
    have queued : MutexSound { sys with wque := sys.wque ++ [thr] } :=
      ⟨sound.room, fun _ => busy, sound.threads⟩
    refine queued.setThread
      ⟨decide_eq_false free, locked, notLocked, fun fails => ?_⟩
    rcases fails with isDestroyed | isDelivered
    · cases isDestroyed
    · cases isDelivered
  · rw [if_neg busy]
    exact sound.take busy locked

/-- `mutex_try_lock`. -/
theorem MutexSound.mutexTryLock
    (sound : MutexSound sys)
    {ok failed : MutexUse}
    (free : thr ∉ sys.holders)
    (locked : Balanced true ok)
    (notLocked : Balanced false failed) :
    MutexSound (sys.mutexTryLock thr ok failed) := by
  rw [MutexSystem.mutexTryLock, MutexSystem.lockMutexCommon]
  by_cases busy : sys.resources = 0
  · rw [if_pos busy]
    refine sound.setThread ?_
    rw [MutexSystem.holds, decide_eq_false free]
    exact notLocked
  · rw [if_neg busy]
    exact sound.take busy locked

/-- A reason that is no failure, or one that is tested, fits a sleeping thread. -/
theorem Activity.Sound.wake
    {holds : Bool}
    {activity : Activity}
    (sound : activity.Sound holds)
    {reason : WqueReason}
    (handled : Fails reason → activity.tested = true) :
    (activity.wake reason).Sound holds := by
  cases activity with
  | running todo =>
      exact sound
  | locking old site ok failed =>
      exact ⟨sound.1, sound.2.1, sound.2.2.1, handled⟩

/-- A thread that may sleep fits what it holds when the waiters are woken. -/
theorem Activity.Sound.wqueWakeup
    {holds : Bool}
    (sound : (sys.threads thr).Sound holds)
    {reason : WqueReason}
    (handled :
      thr ∈ sys.wque → Fails reason → (sys.threads thr).tested = true) :
    ((sys.wqueWakeup reason).threads thr).Sound holds := by
  change
    (if thr ∈ sys.wque then
      (sys.threads thr).wake reason
    else
      sys.threads thr).Sound holds
  split
  case isTrue queued =>
    exact sound.wake (handled queued)
  case isFalse =>
    exact sound

/-- All waiters are woken. -/
theorem MutexSound.wqueWakeup
    (sound : MutexSound sys)
    {reason : WqueReason}
    (handled :
      ∀ thr ∈ sys.wque, Fails reason → (sys.threads thr).tested = true) :
    MutexSound (sys.wqueWakeup reason) :=
  ⟨sound.room, fun some => absurd rfl some, fun other =>
    (sound.threads other).wqueWakeup (handled other)⟩

theorem not_fails_released : ¬ Fails .released := by
  rintro (isDestroyed | isDelivered)
  · cases isDestroyed
  · cases isDelivered

/-- A holder unlocks. -/
theorem MutexSound.mutexUnlock
    (sound : MutexSound sys)
    (holds : thr ∈ sys.holders)
    {next : MutexUse}
    (fits : Balanced false next) :
    MutexSound ((sys.mutexUnlock thr).setThread thr (.running next)) := by
  have room := sound.room
  obtain ⟨holder, alone⟩ : ∃ holder, sys.holders = [holder] := by
    refine List.length_eq_one_iff.mp ?_
    have some := List.length_pos_of_mem holds
    omega
  rw [alone, List.length_singleton] at room
  have taken : sys.resources = 0 := by omega
  rw [alone, List.mem_singleton] at holds
  subst holds
  have nobody : sys.holders.erase thr = [] := by
    rw [alone, List.erase_cons_head]
  let unlocked : MutexSystem :=
    { sys with
      resources := (sys.resources + 1) % 2 ^ 32
      holders := sys.holders.erase thr }
  have free (other : Nat) : unlocked.holds other = false := by
    refine decide_eq_false ?_
    change other ∉ sys.holders.erase thr
    rw [nobody]
    exact List.not_mem_nil
  refine ⟨?_, fun some => absurd rfl some, fun other => ?_⟩
  · change (sys.resources + 1) % 2 ^ 32 + (sys.holders.erase thr).length ≤ 1
    rw [nobody, taken]
    decide
  · change
      (((unlocked.wqueWakeup .released).setThread thr
        (.running next)).threads other).Sound (unlocked.holds other)
    rw [free]
    by_cases same : other = thr
    · rw [same, MutexSystem.setThread_self]
      exact fits
    · have old := sound.threads other
      rw [MutexSystem.holds, alone,
        decide_eq_false (List.mem_singleton.not.mpr same)] at old
      rw [MutexSystem.setThread_of_ne _ same]
      have still : (unlocked.threads other).Sound false := old
      exact still.wqueWakeup fun _ fails => absurd fails not_fails_released

/-- A thread goes on along its path. -/
theorem MutexSound.advance
    (sound : MutexSound sys)
    {left : Bool}
    (advanced : sys.advance thr left = some after) :
    MutexSound after := by
  have fits := sound.threads thr
  rw [MutexSystem.advance] at advanced
  split at advanced
  case h_1 => cases advanced
  case h_2 => cases advanced
  case h_3 site ok failed isNext =>
    rw [isNext] at fits
    cases advanced
    exact sound.mutexLock (of_decide_eq_false fits.1) fits.2.1 fits.2.2
  case h_4 ok failed isNext =>
    rw [isNext] at fits
    cases advanced
    exact sound.mutexTryLock (of_decide_eq_false fits.1) fits.2.1 fits.2.2
  case h_5 next isNext =>
    rw [isNext] at fits
    cases advanced
    exact sound.mutexUnlock (of_decide_eq_true fits.1) fits.2
  case h_6 next isNext =>
    rw [isNext] at fits
    split at advanced
    · cases advanced
      refine sound.setThread ?_
      rw [fits.1]
      exact fits.2
    · cases advanced
  case h_7 next isNext =>
    rw [isNext] at fits
    split at advanced
    · cases advanced
    · cases advanced
      refine sound.setThread ?_
      rw [fits.1]
      exact fits.2
  case h_8 yes no isNext =>
    rw [isNext] at fits
    cases advanced
    refine sound.setThread ?_
    cases left with
    | true => exact fits.1
    | false => exact fits.2
  case h_9 site ok failed isNext =>
    rw [isNext] at fits
    cases advanced
    obtain ⟨free, -, notLocked, tested⟩ := fits
    rw [tested (.inl rfl)] at notLocked
    refine sound.setThread ?_
    rw [free]
    exact notLocked
  case h_10 site ok failed isNext =>
    rw [isNext] at fits
    cases advanced
    obtain ⟨free, -, notLocked, tested⟩ := fits
    rw [tested (.inr rfl)] at notLocked
    refine sound.setThread ?_
    rw [free]
    exact notLocked
  case h_11 site ok failed isNext =>
    rw [isNext] at fits
    cases advanced
    exact sound.mutexLock (of_decide_eq_false fits.1) fits.2.1 fits.2.2.1
  case h_12 => cases advanced
  case h_13 => cases advanced

/-- Every section keeps the invariant, if failures go to tested calls only. -/
theorem MutexSound.step
    {action : MutexAction}
    (sound : MutexSound sys)
    (tested : FailureTested sys action)
    (stepped : mutexNext sys action = some after) :
    MutexSound after := by
  cases action with
  | call thr caller =>
      rw [mutexNext] at stepped
      split at stepped
      case isTrue idle =>
        cases stepped
        have fits := sound.threads thr
        rw [idle] at fits
        refine sound.setThread ?_
        rw [show sys.holds thr = false from fits]
        exact balanced_caller caller
      case isFalse => cases stepped
  | advance thr left =>
      exact sound.advance stepped
  | destroy =>
      cases stepped
      have woken : MutexSound (sys.wqueWakeup .destroyed) :=
        sound.wqueWakeup fun thr queued _ => tested thr queued
      have room := sound.room
      refine ⟨?_, fun _ => rfl, woken.threads⟩
      change 0 + sys.holders.length ≤ 1
      omega
  | deliver =>
      cases stepped
      exact sound.wqueWakeup fun thr queued _ => tested thr queued

/-- At the start the mutex is free, and every thread may call. -/
theorem mutexInit_sound : MutexSound mutexInit :=
  ⟨Nat.le_refl 1, fun some => absurd rfl some, fun _ => rfl⟩

/-- The invariant gives mutual exclusion. -/
theorem MutexSound.mutualExclusion
    (sound : MutexSound sys) :
    MutualExclusion sys := by
  have room := sound.room
  refine ⟨by omega, by omega, fun thr next unlocks => ?_⟩
  have fits := sound.threads thr
  rw [unlocks] at fits
  exact of_decide_eq_true fits.1

/-! ## A failure that is not tested -/

/-- A thread on a holder's path without the mutex gets to an unlock. -/
theorem unlocks_without_holding
    {path : MutexUse}
    (balanced : Balanced true path)
    (sys : MutexSystem)
    (isNext : sys.threads thr = .running path)
    (busy : sys.resources = 0)
    (free : thr ∉ sys.holders) :
    ∃ actions final,
      Run (StepOf mutexNext) sys actions final ∧
        ¬ MutualExclusion final := by
  induction path generalizing sys with
  | unlock next =>
      exact ⟨[], sys, .nil, fun exclusion =>
        free (exclusion.unlocks thr next isNext)⟩
  | assertLocked next inductionHypothesis =>
      have stepped :
          StepOf mutexNext sys (.advance thr true)
            (sys.setThread thr (.running next)) := by
        simp [StepOf, mutexNext, MutexSystem.advance, isNext,
          MutexSystem.mutexLockedBySelf, busy]
      obtain ⟨actions, final, later, broken⟩ :=
        inductionHypothesis balanced.2 (sys.setThread thr (.running next))
          (sys.setThread_self ..) busy free
      exact ⟨_, final, Run.cons stepped later, broken⟩
  | choose left right inductionHypothesis _ =>
      have stepped :
          StepOf mutexNext sys (.advance thr true)
            (sys.setThread thr (.running left)) := by
        simp [StepOf, mutexNext, MutexSystem.advance, isNext]
      obtain ⟨actions, final, later, broken⟩ :=
        inductionHypothesis balanced.1 (sys.setThread thr (.running left))
          (sys.setThread_self ..) busy free
      exact ⟨_, final, Run.cons stepped later, broken⟩
  | done => cases balanced
  | stop => cases balanced
  | lock => cases balanced.1
  | tryLock => cases balanced.1
  | assertUnlocked => cases balanced.1

/-- A thread that was woken with a failure that it does not test. -/
theorem unlocks_after_failure
    {reason : WqueReason}
    {site : Site}
    {ok failed : MutexUse}
    (fails : Fails reason)
    (balanced : Balanced true failed)
    (isNext : sys.threads thr = .locking reason site ok failed)
    (busy : sys.resources = 0)
    (free : thr ∉ sys.holders) :
    ∃ actions final,
      Run (StepOf mutexNext) sys actions final ∧
        ¬ MutualExclusion final := by
  have stepped :
      StepOf mutexNext sys (.advance thr true)
        (sys.setThread thr (.running failed)) := by
    rcases fails with isReason | isReason
    · simp [StepOf, mutexNext, MutexSystem.advance, isNext, isReason]
    · simp [StepOf, mutexNext, MutexSystem.advance, isNext, isReason]
  obtain ⟨actions, final, later, broken⟩ :=
    unlocks_without_holding balanced (sys.setThread thr (.running failed))
      (sys.setThread_self ..) busy free
  exact ⟨_, final, Run.cons stepped later, broken⟩

/-- Waking a waiter that does not test its failure leads to a wrong unlock. -/
theorem MutexSound.untested
    (sound : MutexSound sys)
    {action : MutexAction}
    (untested : ¬ FailureTested sys action)
    (stepped : mutexNext sys action = some after) :
    ∃ actions final,
      Run (StepOf mutexNext) after actions final ∧
        ¬ MutualExclusion final := by
  have waiter
      {reason : WqueReason}
      (queued :
        ¬ ∀ thr ∈ sys.wque, (sys.threads thr).tested = true) :
      sys.resources = 0 ∧
        ∃ thr site ok failed,
          Balanced true failed ∧
            thr ∉ sys.holders ∧
            (sys.wqueWakeup reason).threads thr =
              .locking reason site ok failed := by
    simp only [not_forall] at queued
    obtain ⟨thr, queued, untested⟩ := queued
    refine ⟨sound.waiters (List.ne_nil_of_mem queued), thr, ?_⟩
    have fits := sound.threads thr
    cases asleep : sys.threads thr with
    | running todo =>
        rw [asleep] at untested
        exact absurd rfl untested
    | locking old site ok failed =>
        rw [asleep] at untested fits
        obtain ⟨free, -, notLocked, -⟩ := fits
        rw [show site.tested = false from Bool.eq_false_iff.mpr untested]
          at notLocked
        refine ⟨site, ok, failed, notLocked, of_decide_eq_false free, ?_⟩
        change (if thr ∈ sys.wque then _ else _) = _
        rw [if_pos queued, asleep]
        rfl
  cases action with
  | call thr caller => exact absurd trivial untested
  | advance thr left => exact absurd trivial untested
  | destroy =>
      cases stepped
      obtain ⟨-, thr, site, ok, failed, balanced, free, isNext⟩ :=
        waiter untested
      exact unlocks_after_failure (.inl rfl) balanced isNext rfl free
  | deliver =>
      cases stepped
      obtain ⟨busy, thr, site, ok, failed, balanced, free, isNext⟩ :=
        waiter untested
      exact unlocks_after_failure (.inr rfl) balanced isNext busy free

/--
In every run where failures go to tested calls only, one thread at most holds
the mutex, and no thread unlocks that does not; and one step more where a
failure goes to another call can be followed until that is broken.
-/
theorem mutualExclusion_of_runs
    {actions : List MutexAction}
    (run :
      Run (Guarded FailureTested (StepOf mutexNext)) mutexInit actions sys) :
    MutualExclusion sys ∧
      ∀ action after,
        mutexNext sys action = some after →
        ¬ FailureTested sys action →
        ∃ later final,
          Run (StepOf mutexNext) after later final ∧
            ¬ MutualExclusion final := by
  have sound : MutexSound sys :=
    run.invariant mutexInit_sound fun sound stepped =>
      sound.step stepped.1 stepped.2
  exact ⟨sound.mutualExclusion, fun action after stepped untested =>
    sound.untested untested stepped⟩

end Steps

/-! ## Two runs -/

/--
While thread 1 holds the mutex an event is delivered to a reader, which gives
up, and the owner of a page waits until the mutex is unlocked.
-/
def testedActions : List MutexAction :=
  [.call 1 .vmUnmap, .advance 1 false, .call 2 .vmStrlen, .advance 2 false,
    .deliver, .advance 2 false, .call 3 (.pagecache [.write]),
    .advance 3 false, .advance 1 false, .advance 3 false, .destroy]

/-- The owner of the page holds the mutex in the end. -/
theorem mutualExclusion_of_runs_tested :
    ∃ sys,
      execute (guardNext FailureTested mutexNext) mutexInit testedActions =
          some sys ∧
        sys.holders = [3] ∧
        sys.threads 2 = .running .done ∧
        MutualExclusion sys := by
  obtain ⟨sys, executed⟩ : ∃ sys,
      execute (guardNext FailureTested mutexNext) mutexInit testedActions =
        some sys :=
    Option.isSome_iff_exists.mp (by decide +kernel)
  have facts :
      (execute (guardNext FailureTested mutexNext) mutexInit
        testedActions).map (fun sys => (sys.holders, sys.threads 2)) =
        some ([3], .running .done) := by
    decide +kernel
  rw [executed, Option.map_some, Option.some.injEq] at facts
  simp only [Prod.mk.injEq] at facts
  exact ⟨sys, executed, facts.1, facts.2,
    (mutualExclusion_of_runs (Run.guarded_of_execute executed)).1⟩

/--
Thread 1 holds the mutex of the kernel's page table.  Thread 2 copies that
table, and its lock ends with an event.
-/
def interruptedCopy : List MutexAction :=
  [.call 1 .vmUnmap, .advance 1 false, .call 2 (.halCopyKernelPgtbl false),
    .advance 2 false, .deliver, .advance 2 false]

/--
The copy is about to unlock what thread 1 holds.  Then thread 3 gets the mutex
too, or `resources` becomes 2 when thread 1 unlocks.
-/
theorem failed_lock_unlocked :
    ((execute mutexNext mutexInit interruptedCopy).map
      fun sys => (sys.threads 2, sys.holders)) =
        some (.running (.unlock .done), [1]) ∧
    ((execute mutexNext mutexInit
        (interruptedCopy ++
          [.advance 2 false, .call 3 .vmStrlen, .advance 3 false])).map
      (·.holders)) = some [3, 1] ∧
    ((execute mutexNext mutexInit
        (interruptedCopy ++ [.advance 2 false, .advance 1 false])).map
      (·.resources)) = some 2 := by
  decide +kernel

end RiscvWorkshop.Mutex
