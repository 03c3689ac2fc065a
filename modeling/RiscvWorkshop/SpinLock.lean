import Mathlib.Tactic.Common

namespace RiscvWorkshop.SpinLock

/-!
# Spin locks that save the interrupt state

A function that takes a lock disables the interrupts of its CPU and saves the
state it found; with the lock it restores what it saved.  The module follows
one CPU through such functions.  Other CPUs can make it wait for a lock and
change nothing else that is followed here.  The locks have names of any type.
-/

/-- The interrupts and the locks of a CPU. -/
structure Cpu (Lock : Type) where
  /-- The bit `SSTATUS_SIE`: interrupts are enabled. -/
  sie : Bool
  /-- The locks that the CPU holds, the last one taken first. -/
  held : List Lock
  /-- Every lock taken so far, with the locks held at that time. -/
  taken : List (Lock × List Lock)

/-- A function that runs on a CPU; `none` when it never returns. -/
abbrev OnCpu (Lock : Type) := StateT (Cpu Lock) Option

/-- A CPU that holds no lock. -/
def Cpu.entry {Lock : Type} (sie : Bool) : Cpu Lock :=
  { sie, held := [], taken := [] }

section Functions

variable {Lock Result : Type}
variable [DecidableEq Lock]

/-- `krn_cpu_save_and_disable_interrupt`. -/
def krnCpuSaveAndDisableInterrupt : OnCpu Lock Bool :=
  fun cpu => some (cpu.sie, { cpu with sie := false })

/-- `krn_cpu_restore_interrupt`: a saved bit is set again, none is cleared. -/
def krnCpuRestoreInterrupt (iflags : Bool) : OnCpu Lock Unit :=
  fun cpu => some ((), { cpu with sie := cpu.sie || iflags })

/-- `spinlock_lock`; a lock that the CPU holds already is never taken again. -/
def spinlockLock (lock : Lock) : OnCpu Lock Unit :=
  fun cpu =>
    if lock ∈ cpu.held then none
    else
      some
        ((), { cpu with
          held := lock :: cpu.held
          taken := cpu.taken ++ [(lock, cpu.held)] })

/-- `spinlock_unlock`. -/
def spinlockUnlock (lock : Lock) : OnCpu Lock Unit :=
  fun cpu =>
    if lock ∈ cpu.held then
      some ((), { cpu with held := cpu.held.erase lock })
    else none

/-- `spinlock_lock_disable_intr`; the result is the saved interrupt state. -/
def spinlockLockDisableIntr (lock : Lock) : OnCpu Lock Bool := do
  let iflags ← krnCpuSaveAndDisableInterrupt
  spinlockLock lock
  pure iflags

/-- `spinlock_unlock_restore_intr`. -/
def spinlockUnlockRestoreIntr (lock : Lock) (iflags : Bool) :
    OnCpu Lock Unit := do
  spinlockUnlock lock
  krnCpuRestoreInterrupt iflags

/-- `spinlock_locked_by_self`. -/
def spinlockLockedBySelf (lock : Lock) : OnCpu Lock Bool :=
  fun cpu => some (decide (lock ∈ cpu.held), cpu)

end Functions

/-- The value of a step without locks, which may stop. -/
def orStop {Lock Result : Type} (value : Option Result) : OnCpu Lock Result :=
  fun cpu => value.map fun result => (result, cpu)

/-- `kassert`. -/
def kassert {Lock : Type} (holds : Bool) : OnCpu Lock Unit :=
  orStop (if holds then some () else none)

/-! ## What a function leaves of the locks -/

/-- Each lock was taken while only locks of lower ranks were held. -/
def Cpu.Ordered {Lock : Type} (rank : Lock → Nat) (cpu : Cpu Lock) : Prop :=
  ∀ event ∈ cpu.taken, ∀ outer ∈ event.2, rank outer < rank event.1

/--
The function returns `value`, or never returns if that is `none`; it leaves
the locks as it found them, takes others in order, and turns the interrupt
state that it found into another one.
-/
def Runs
    {Lock Result : Type}
    (rank : Lock → Nat)
    (held : List Lock)
    (operation : OnCpu Lock Result)
    (value : Option Result)
    (leave : Result → Bool → Bool) : Prop :=
  ∀ cpu : Cpu Lock, cpu.held = held → cpu.Ordered rank →
    match value with
    | none => operation cpu = none
    | some result =>
        ∃ after,
          operation cpu = some (result, after) ∧
            after.held = held ∧
            after.Ordered rank ∧
            after.sie = leave result cpu.sie

/-- A function that leaves the interrupts as it found them, too. -/
def Balanced
    {Lock Result : Type}
    (rank : Lock → Nat)
    (held : List Lock)
    (operation : OnCpu Lock Result)
    (value : Option Result) : Prop :=
  Runs rank held operation value fun _ sie => sie

section Rules

variable {Lock Result Next : Type}
variable {rank : Lock → Nat}
variable {held : List Lock}

theorem bind_of_some
    {first : OnCpu Lock Result}
    {next : Result → OnCpu Lock Next}
    {cpu middle : Cpu Lock}
    {result : Result}
    (executed : first cpu = some (result, middle)) :
    (first >>= next) cpu = next result middle := by
  show (first cpu).bind _ = _
  rw [executed]
  rfl

theorem bind_of_none
    {first : OnCpu Lock Result}
    {next : Result → OnCpu Lock Next}
    {cpu : Cpu Lock}
    (stopped : first cpu = none) :
    (first >>= next) cpu = none := by
  show (first cpu).bind _ = _
  rw [stopped]
  rfl

/-- A function that runs as it should has the value it should have. -/
theorem Runs.value
    {operation : OnCpu Lock Result}
    {value : Option Result}
    {leave : Result → Bool → Bool}
    {cpu : Cpu Lock}
    (runs : Runs rank held operation value leave)
    (sameHeld : cpu.held = held)
    (ordered : cpu.Ordered rank) :
    (operation cpu).map Prod.fst = value := by
  have ran := runs cpu sameHeld ordered
  cases value with
  | none =>
      rw [ran]
      rfl
  | some result =>
      obtain ⟨after, executed, -⟩ := ran
      rw [executed]
      rfl

/-- What a function that returned left behind. -/
theorem Runs.returned
    {operation : OnCpu Lock Result}
    {value : Option Result}
    {leave : Result → Bool → Bool}
    {cpu after : Cpu Lock}
    {result : Result}
    (runs : Runs rank held operation value leave)
    (sameHeld : cpu.held = held)
    (ordered : cpu.Ordered rank)
    (executed : operation cpu = some (result, after)) :
    value = some result ∧ after.held = held ∧ after.Ordered rank ∧
      after.sie = leave result cpu.sie := by
  have ran := runs cpu sameHeld ordered
  cases value with
  | none =>
      rw [ran] at executed
      cases executed
  | some expected =>
      obtain ⟨final, again, left⟩ := ran
      rw [executed] at again
      cases again
      exact ⟨rfl, left⟩

theorem Balanced.pure
    (result : Result) :
    Balanced rank held (Pure.pure result) (some result) :=
  fun cpu sameHeld ordered => ⟨cpu, rfl, sameHeld, ordered, rfl⟩

/-- A value that is computed before a function. -/
theorem Balanced.pureBind
    {result : Result}
    {next : Result → OnCpu Lock Next}
    {value : Option Next}
    (balanced : Balanced rank held (next result) value) :
    Balanced rank held (Pure.pure result >>= next) value :=
  balanced

theorem Balanced.orStop
    (value : Option Result) :
    Balanced rank held (orStop value) value := by
  intro cpu sameHeld ordered
  cases value with
  | none => rfl
  | some result => exact ⟨cpu, rfl, sameHeld, ordered, rfl⟩

/-- Functions one after the other. -/
theorem Runs.bind
    {first : OnCpu Lock Result}
    {next : Result → OnCpu Lock Next}
    {value : Option Result}
    {nextValue : Result → Option Next}
    {leave : Result → Bool → Bool}
    {nextLeave : Next → Bool → Bool}
    {bothLeave : Next → Bool → Bool}
    (runs : Runs rank held first value leave)
    (nextRuns :
      ∀ result, value = some result →
        Runs rank held (next result) (nextValue result) nextLeave)
    (both :
      ∀ result, value = some result →
        ∀ last, nextValue result = some last →
          ∀ sie, nextLeave last (leave result sie) = bothLeave last sie) :
    Runs rank held (first >>= next) (value.bind nextValue) bothLeave := by
  intro cpu sameHeld ordered
  have ran := runs cpu sameHeld ordered
  cases value with
  | none =>
      exact bind_of_none ran
  | some result =>
      obtain ⟨middle, executed, middleHeld, middleOrdered, middleSie⟩ := ran
      have nextRan := nextRuns result rfl middle middleHeld middleOrdered
      rw [bind_of_some executed, Option.bind_some]
      cases last : nextValue result with
      | none =>
          rw [last] at nextRan
          exact nextRan
      | some final =>
          rw [last] at nextRan
          obtain ⟨after, finished, afterHeld, afterOrdered, afterSie⟩ :=
            nextRan
          refine ⟨after, finished, afterHeld, afterOrdered, ?_⟩
          rw [afterSie, middleSie, both result rfl final last]

/-- The result of a function in another form. -/
theorem Runs.mapResult
    {operation : OnCpu Lock Result}
    {value : Option Result}
    {leave : Bool → Bool}
    (runs : Runs rank held operation value fun _ sie => leave sie)
    (form : Result → Next) :
    Runs rank held (operation >>= fun result => Pure.pure (form result))
      (value.map form) fun _ sie => leave sie := by
  rw [Option.map_eq_bind]
  exact Runs.bind runs (fun result _ => Balanced.pure (form result))
    fun _ _ _ _ _ => rfl

/-- The same interrupt state in other words. -/
theorem Runs.leaveCongr
    {operation : OnCpu Lock Result}
    {value : Option Result}
    {leave otherLeave : Bool → Bool}
    (runs : Runs rank held operation value fun _ sie => leave sie)
    (same : ∀ sie, leave sie = otherLeave sie) :
    Runs rank held operation value fun _ sie => otherLeave sie := by
  obtain rfl : leave = otherLeave := funext same
  exact runs

theorem Balanced.bind
    {first : OnCpu Lock Result}
    {next : Result → OnCpu Lock Next}
    {value : Option Result}
    {nextValue : Result → Option Next}
    (balanced : Balanced rank held first value)
    (nextBalanced :
      ∀ result, value = some result →
        Balanced rank held (next result) (nextValue result)) :
    Balanced rank held (first >>= next) (value.bind nextValue) :=
  Runs.bind balanced nextBalanced fun _ _ _ _ _ => rfl

/-- A function after one that always returns the same value. -/
theorem Balanced.after
    {first : OnCpu Lock Result}
    {next : Result → OnCpu Lock Next}
    {result : Result}
    {value : Option Next}
    (balanced : Balanced rank held first (some result))
    (nextBalanced : Balanced rank held (next result) value) :
    Balanced rank held (first >>= next) value := by
  intro cpu sameHeld ordered
  obtain ⟨middle, executed, middleHeld, middleOrdered, middleSie⟩ :=
    balanced cpu sameHeld ordered
  have nextRan := nextBalanced middle middleHeld middleOrdered
  simp only at middleSie nextRan
  rw [bind_of_some executed]
  rwa [middleSie] at nextRan

section Locks

variable [DecidableEq Lock]

/-- A lock that is held passes the assertion that it is. -/
theorem Balanced.kassertLocked
    {lock : Lock}
    (isHeld : lock ∈ held) :
    Balanced rank held (spinlockLockedBySelf lock >>= kassert)
      (some ()) := by
  intro cpu sameHeld ordered
  refine ⟨cpu, ?_, sameHeld, ordered, rfl⟩
  show kassert (decide (lock ∈ cpu.held)) cpu = _
  rw [sameHeld, decide_eq_true isHeld]
  rfl

/-- Taking a lock of a higher rank than all that are held. -/
theorem spinlockLockDisableIntr_eq
    {lock : Lock}
    {cpu : Cpu Lock}
    (above : ∀ outer ∈ cpu.held, rank outer < rank lock)
    (ordered : cpu.Ordered rank) :
    ∃ inside,
      spinlockLockDisableIntr lock cpu = some (cpu.sie, inside) ∧
        inside.held = lock :: cpu.held ∧
        inside.Ordered rank ∧
        inside.sie = false := by
  have fresh : lock ∉ cpu.held := fun isHeld =>
    Nat.lt_irrefl _ (above lock isHeld)
  refine ⟨⟨false, lock :: cpu.held, cpu.taken ++ [(lock, cpu.held)]⟩, ?_, rfl,
    ?_, rfl⟩
  · show (spinlockLock lock { cpu with sie := false }).bind _ = _
    rw [spinlockLock, if_neg fresh]
    rfl
  · intro event member
    rcases List.mem_append.mp member with older | last
    · exact ordered event older
    · rw [List.mem_singleton.mp last]
      exact above

/-- Giving the last lock back. -/
theorem spinlockUnlockRestoreIntr_eq
    {lock : Lock}
    {iflags : Bool}
    {cpu : Cpu Lock}
    (isLast : cpu.held = lock :: held) :
    spinlockUnlockRestoreIntr lock iflags cpu =
      some
        ((), { cpu with sie := cpu.sie || iflags, held }) := by
  have isHeld : lock ∈ cpu.held := by simp [isLast]
  show (spinlockUnlock lock cpu).bind _ = _
  rw [spinlockUnlock, if_pos isHeld, isLast, List.erase_cons_head]
  rfl

/--
A section under a lock with a variable of its own for what it saves, and what
comes after it.
-/
theorem Balanced.underLock
    {lock : Lock}
    {body : OnCpu Lock Result}
    {next : Result → OnCpu Lock Next}
    {value : Option Result}
    {nextValue : Result → Option Next}
    (above : ∀ outer ∈ held, rank outer < rank lock)
    (balanced : Balanced rank (lock :: held) body value)
    (nextBalanced :
      ∀ result, value = some result →
        Balanced rank held (next result) (nextValue result)) :
    Balanced rank held
      (do
        let iflags ← spinlockLockDisableIntr lock
        let result ← body
        spinlockUnlockRestoreIntr lock iflags
        next result)
      (value.bind nextValue) := by
  rintro cpu rfl ordered
  obtain ⟨inside, locked, insideHeld, insideOrdered, insideSie⟩ :=
    spinlockLockDisableIntr_eq above ordered
  have ran := balanced inside insideHeld insideOrdered
  rw [bind_of_some locked]
  cases value with
  | none =>
      exact bind_of_none ran
  | some result =>
      obtain ⟨after, executed, afterHeld, afterOrdered, afterSie⟩ := ran
      rw [bind_of_some executed,
        bind_of_some (spinlockUnlockRestoreIntr_eq afterHeld)]
      have restored : (after.sie || cpu.sie) = cpu.sie := by
        rw [afterSie, insideSie, Bool.false_or]
      have nextRan :=
        nextBalanced result rfl
          { after with sie := after.sie || cpu.sie, held := cpu.held }
          rfl afterOrdered
      rw [restored] at nextRan ⊢
      exact nextRan

/-- A section that always returns the same value, and what comes after it. -/
theorem Balanced.underLockAfter
    {lock : Lock}
    {body : OnCpu Lock Result}
    {next : Result → OnCpu Lock Next}
    {result : Result}
    {value : Option Next}
    (above : ∀ outer ∈ held, rank outer < rank lock)
    (balanced : Balanced rank (lock :: held) body (some result))
    (nextBalanced : Balanced rank held (next result) value) :
    Balanced rank held
      (do
        let iflags ← spinlockLockDisableIntr lock
        let result ← body
        spinlockUnlockRestoreIntr lock iflags
        next result)
      value := by
  have sameNext : ∀ other, some result = some other →
      Balanced rank held (next other) value := by
    intro other same
    cases same
    exact nextBalanced
  exact Balanced.underLock above balanced sameNext

/-- A function that is one section under a lock. -/
theorem Balanced.lockedSection
    {lock : Lock}
    {body : OnCpu Lock Result}
    {value : Option Result}
    (above : ∀ outer ∈ held, rank outer < rank lock)
    (balanced : Balanced rank (lock :: held) body value) :
    Balanced rank held
      (do
        let iflags ← spinlockLockDisableIntr lock
        let result ← body
        spinlockUnlockRestoreIntr lock iflags
        Pure.pure result)
      value := by
  have whole :=
    Balanced.underLock above balanced fun result _ => Balanced.pure result
  rwa [Option.bind_fun_some] at whole

/--
Two nested sections that save to one variable: what the inner lock saved is
restored twice, and what the outer lock saved is lost.
-/
theorem sharedVariable
    {inner outer : Lock}
    {body : OnCpu Lock Result}
    {value : Option Result}
    {cpu : Cpu Lock}
    (above : ∀ lock ∈ outer :: held, rank lock < rank inner)
    (balanced : Balanced rank (inner :: outer :: held) body value)
    (sameHeld : cpu.held = outer :: held)
    (ordered : cpu.Ordered rank)
    (disabled : cpu.sie = false)
    (last : Result → Next) :
    match value with
    | none =>
        (do
          let iflags ← spinlockLockDisableIntr inner
          let result ← body
          spinlockUnlockRestoreIntr inner iflags
          spinlockUnlockRestoreIntr outer iflags
          Pure.pure (last result) : OnCpu Lock Next) cpu = none
    | some result =>
        ∃ after,
          (do
            let iflags ← spinlockLockDisableIntr inner
            let result ← body
            spinlockUnlockRestoreIntr inner iflags
            spinlockUnlockRestoreIntr outer iflags
            Pure.pure (last result) : OnCpu Lock Next) cpu =
              some (last result, after) ∧
            after.held = held ∧
            after.Ordered rank ∧
            after.sie = false := by
  rw [← sameHeld] at above balanced
  obtain ⟨inside, locked, insideHeld, insideOrdered, insideSie⟩ :=
    spinlockLockDisableIntr_eq above ordered
  have ran := balanced inside insideHeld insideOrdered
  cases value with
  | none =>
      exact (bind_of_some locked).trans (bind_of_none ran)
  | some result =>
      obtain ⟨after, executed, afterHeld, afterOrdered, afterSie⟩ := ran
      refine ⟨{ after with sie := after.sie || cpu.sie || cpu.sie, held }, ?_,
        rfl, afterOrdered, ?_⟩
      · refine (bind_of_some locked).trans ((bind_of_some executed).trans ?_)
        refine (bind_of_some (spinlockUnlockRestoreIntr_eq afterHeld)).trans ?_
        exact bind_of_some (spinlockUnlockRestoreIntr_eq sameHeld)
      · simp only [afterSie, insideSie, disabled, Bool.or_self]

end Locks

end Rules

end RiscvWorkshop.SpinLock
