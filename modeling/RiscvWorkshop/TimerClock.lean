import Mathlib
import RiscvWorkshop.Timer
import RiscvWorkshop.TimerRuns

namespace RiscvWorkshop.Timer

/-!
# The clock and the time of a callout

An update carries whole seconds out of the nanoseconds, so that the clock is
the sum of what it was advanced by.  The time of a callout is set with a carry
of its own, which adds a second and leaves the nanoseconds as they are.
-/

/-- The nanoseconds by which a sequence of calls advances the clock. -/
def diffSum : List TimerCall → Nat
  | [] => 0
  | .update diff :: rest => diff.ns + diffSum rest
  | .add _ _ _ _ :: rest => diffSum rest
  | .cancel _ :: rest => diffSum rest
  | .turn :: rest => diffSum rest

/-- The differences of two sequences add up. -/
theorem diffSum_append
    (first second : List TimerCall) :
    diffSum (first ++ second) = diffSum first + diffSum second := by
  induction first with
  | nil =>
      simp [diffSum]
  | cons call rest inductionHypothesis =>
      cases call <;> simp only [List.cons_append, diffSum, inductionHypothesis]
      omega

namespace SystemTimer

/--
The entry that `tim_callout_add` puts into the queue, whatever its callout and
its object, has a normal time that is the timeout after the current time.
-/
def ExpiresRight
    (timer : SystemTimer)
    (relExpireMs : Nat) : Prop :=
  ∀ callout privateInfo addr after,
    timer.timCalloutAdd relExpireMs callout privateInfo (some addr) =
      some (.ok addr, after) →
    ∀ ent, after.head.Perm (ent :: timer.head) →
      ent.expire.Normal ∧
        ent.expire.ns = timer.curtime.ns + relExpireMs * 1000 * 1000

/--
The clock is normal and is the sum of the differences, and the time that is
stored for a timeout is the exact one.
-/
structure TimesRight
    (timer : SystemTimer)
    (calls : List TimerCall)
    (relExpireMs : Nat) : Prop where
  normal : timer.curtime.Normal
  sum : timer.curtime.ns = diffSum calls
  expires : timer.ExpiresRight relExpireMs

variable {timer : SystemTimer}

/-- The entry that an addition puts into the queue is the new one. -/
theorem entered_of_timCalloutAdd
    {relExpireMs callout privateInfo addr : Nat}
    {result : Except Errno Nat}
    {after : SystemTimer}
    (added :
      timer.timCalloutAdd relExpireMs callout privateInfo (some addr) =
        some (result, after)) :
    after.head.Perm
      (timer.newEnt relExpireMs callout privateInfo addr :: timer.head) := by
  rw [timCalloutAdd] at added
  split at added
  · cases added
  cases added
  exact queueAddSort_perm calloutentCmp .ascending _ timer.head

/-- An object that is not in use can be had for the next entry. -/
theorem timCalloutAdd_succeeds
    (timer : SystemTimer)
    (relExpireMs callout privateInfo : Nat) :
    ∃ addr after,
      timer.timCalloutAdd relExpireMs callout privateInfo (some addr) =
        some (.ok addr, after) := by
  obtain ⟨addr, unused⟩ := Infinite.exists_notMem_finset timer.allocated.toFinset
  rw [List.mem_toFinset] at unused
  rw [exists_comm]
  simp only [timCalloutAdd]
  exact ⟨_, addr, if_neg unused⟩

/-- The stored time is the one that `expireAt` computes. -/
theorem expiresRight_iff_expireAt
    {relExpireMs : Nat} :
    timer.ExpiresRight relExpireMs ↔
      (expireAt timer.curtime relExpireMs).Normal ∧
        (expireAt timer.curtime relExpireMs).ns =
          timer.curtime.ns + relExpireMs * 1000 * 1000 := by
  constructor
  · intro right
    obtain ⟨addr, after, added⟩ :=
      timer.timCalloutAdd_succeeds relExpireMs 0 0
    exact right 0 0 addr after added _ (entered_of_timCalloutAdd added)
  · intro isExact callout privateInfo addr after added ent entered
    have same := entered.symm.trans (entered_of_timCalloutAdd added)
    have heads := Multiset.coe_eq_coe.mpr same
    simp only [← Multiset.cons_coe] at heads
    rw [(Multiset.cons_inj_left _).mp heads]
    exact isExact

end SystemTimer

/-! ## The carry -/

/-- With a carry the nanoseconds are those of both parts together. -/
theorem expireAt_not_normal
    {curtime : KTimespec}
    {relExpireMs : Nat}
    (carry : timerNsPerSec ≤ curtime.tvNsec + relNsec relExpireMs) :
    ¬ (expireAt curtime relExpireMs).Normal := by
  have below : relNsec relExpireMs < timerNsPerSec := by
    simp only [relNsec, timerNsPerSec, timerMsPerSec]
    omega
  rw [expireAt, if_pos carry, Nat.mod_eq_of_lt below]
  exact Nat.not_lt.mpr carry

/-- Only an update changes the clock. -/
theorem curtime_step
    {source target : SystemTimer}
    {call : TimerCall}
    (stepped : StepOf timerNext source call target) :
    target.curtime = source.curtime ∧ diffSum [call] = 0 ∨
      ∃ diff, target.curtime = advance source.curtime diff ∧
        diffSum [call] = diff.ns := by
  cases call with
  | add relExpireMs callout privateInfo addr =>
      obtain ⟨⟨result, after⟩, added, same⟩ := Option.map_eq_some_iff.mp stepped
      subst same
      cases addr with
      | none =>
          cases added
          exact .inl ⟨rfl, rfl⟩
      | some addr =>
          rw [SystemTimer.timCalloutAdd] at added
          split at added <;> cases added
          exact .inl ⟨rfl, rfl⟩
  | cancel addr =>
      cases stepped
      rw [SystemTimer.timCalloutCancel]
      split <;> exact .inl ⟨rfl, rfl⟩
  | update diff =>
      rw [StepOf, timerNext] at stepped
      split at stepped <;> cases stepped
      exact .inr ⟨diff, rfl, Nat.add_zero _⟩
  | turn =>
      rw [StepOf, timerNext] at stepped
      split at stepped <;> cases stepped
      rw [SystemTimer.invokeCallout]
      split
      · exact .inl ⟨rfl, rfl⟩
      · split <;> exact .inl ⟨rfl, rfl⟩

/-- A step advances the clock by its difference and keeps it normal. -/
theorem clock_step
    {source target : SystemTimer}
    {call : TimerCall}
    (normal : source.curtime.Normal)
    (stepped : StepOf timerNext source call target) :
    target.curtime.Normal ∧
      target.curtime.ns = source.curtime.ns + diffSum [call] := by
  rcases curtime_step stepped with ⟨same, none⟩ | ⟨diff, advanced, sum⟩
  · rw [same, none]
    exact ⟨normal, (Nat.add_zero _).symm⟩
  · rw [advanced, sum]
    exact advance_normal normal diff

/-- In every run the clock is normal and is the sum of the differences. -/
theorem clock_of_run
    {calls : List TimerCall}
    {timer : SystemTimer}
    (run : Run (StepOf timerNext) systemTimerInitializer calls timer) :
    timer.curtime.Normal ∧ timer.curtime.ns = diffSum calls := by
  induction run with
  | nil =>
      exact ⟨Nat.succ_pos _, rfl⟩
  | snoc _ last inductionHypothesis =>
      obtain ⟨normal, sum⟩ := inductionHypothesis
      obtain ⟨stillNormal, advanced⟩ := clock_step normal last
      exact ⟨stillNormal, by rw [advanced, sum, diffSum_append]⟩

/--
In every run of updates, additions, cancellations and callouts, the clock is
right, and a timeout is stored as the exact time if and only if the
nanoseconds of the clock and of the timeout stay below a second together.
-/
theorem timesRight_iff
    {calls : List TimerCall}
    {timer : SystemTimer}
    (relExpireMs : Nat)
    (run : Run (StepOf timerNext) systemTimerInitializer calls timer) :
    timer.TimesRight calls relExpireMs ↔
      timer.curtime.tvNsec + relNsec relExpireMs < timerNsPerSec := by
  obtain ⟨normal, sum⟩ := clock_of_run run
  constructor
  · intro right
    by_contra carry
    exact expireAt_not_normal (Nat.not_lt.mp carry)
      (SystemTimer.expiresRight_iff_expireAt.mp right.expires).1
  · intro noCarry
    exact ⟨normal, sum,
      SystemTimer.expiresRight_iff_expireAt.mpr (expireAt_normal noCarry)⟩

/-- Two updates, of which the second carries into the seconds. -/
def twoUpdates : List TimerCall :=
  [.update ⟨1, 700000000⟩, .turn, .update ⟨0, 400000000⟩, .turn]

/-- At 2.1 s a timeout of 899 ms is stored as 2.999 s. -/
theorem timesRight_twoUpdates :
    ∃ timer,
      execute timerNext systemTimerInitializer twoUpdates = some timer ∧
        timer.curtime = ⟨2, 100000000⟩ ∧ timer.TimesRight twoUpdates 899 := by
  obtain ⟨timer, executed⟩ : ∃ timer,
      execute timerNext systemTimerInitializer twoUpdates = some timer :=
    Option.isSome_iff_exists.mp (by decide +kernel)
  have time :
      (execute timerNext systemTimerInitializer twoUpdates).map (·.curtime) =
        some ⟨2, 100000000⟩ := by
    decide +kernel
  rw [executed, Option.map_some, Option.some.injEq] at time
  refine ⟨timer, executed, time, ?_⟩
  refine (timesRight_iff 899 (Run.of_execute executed)).mpr ?_
  rw [time]
  decide

/-- At 0.9 s a timeout of 200 ms is stored as one second and 1100 ms. -/
theorem timeout_stored_late :
    ((execute timerNext systemTimerInitializer
        [.update ⟨0, 900000000⟩, .turn]).bind fun timer =>
      (timer.timCalloutAdd 200 0 0 (some 10)).map fun after =>
        (timer.head, after.2.head.map (·.expire),
          timer.curtime.ns + 200 * 1000 * 1000)) =
      some ([], [⟨1, 1100000000⟩], 1100000000) ∧
    ¬ ∀ calls timer relExpireMs,
        Run (StepOf timerNext) systemTimerInitializer calls timer →
        timer.TimesRight calls relExpireMs := by
  refine ⟨by decide +kernel, fun always => ?_⟩
  have run : Run (StepOf timerNext) systemTimerInitializer
      [.update ⟨0, 900000000⟩]
      (systemTimerInitializer.timUpdateWalltime ⟨0, 900000000⟩) :=
    Run.of_execute rfl
  have right := SystemTimer.expiresRight_iff_expireAt.mp
    (always _ _ 200 run).expires
  exact expireAt_not_normal (by decide +kernel) right.1

end RiscvWorkshop.Timer
