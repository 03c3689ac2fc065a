import Mathlib
import RiscvWorkshop.Timer

namespace RiscvWorkshop.Timer

/-!
# When callouts are called

The loop stops at the first entry that is not due, so it calls every callout
in time while the queue is in ascending order and every time in it is
normalised.  An entry added behind the last one, or with a carry from the
nanoseconds, breaks this; and no entry that was called goes back to the cache.
-/

/--
An addition without a carry from the nanoseconds, of an entry that is not
behind the last one.
-/
def AddedInOrder
    (timer : SystemTimer) : TimerCall → Prop
  | .add relExpireMs callout privateInfo (some addr) =>
      timer.curtime.tvNsec + relNsec relExpireMs < timerNsPerSec ∧
        ∀ last ∈ timer.head.getLast?,
          ¬ calloutentCmp
            (timer.newEnt relExpireMs callout privateInfo addr) last > 0
  | .add _ _ _ none => True
  | .cancel _ => True
  | .update _ => True
  | .turn => True

instance
    (timer : SystemTimer) :
    ∀ call, Decidable (AddedInOrder timer call)
  | .add _ _ _ (some _) =>
      inferInstanceAs (Decidable (_ ∧ ∀ last ∈ _, ¬ _))
  | .add _ _ _ none => inferInstanceAs (Decidable True)
  | .cancel _ => inferInstanceAs (Decidable True)
  | .update _ => inferInstanceAs (Decidable True)
  | .turn => inferInstanceAs (Decidable True)

namespace SystemTimer

/-- An update that is not running any more, or is the last one otherwise. -/
def Over (timer : SystemTimer) (update : Nat) : Prop :=
  timer.invoking = true → update < timer.updates

/--
Each callout is called at most once, in the first update whose time is at or
after its own and never when it is cancelled; an update that is over called
all of these, and each update calls in the order of the times.
-/
structure Served (timer : SystemTimer) : Prop where
  once : (timer.invocations.map (·.ent.request)).Nodup
  inTime : ∀ invocation ∈ timer.invocations,
    ∃ request,
      timer.requests invocation.ent.request = some request ∧
        request.due = invocation.ent.due ∧
        request.dueUpdate = some invocation.update ∧
        request.cancelled = false
  noneLeft : ∀ number request update,
    timer.requests number = some request →
    request.dueUpdate = some update →
    request.cancelled = false →
    timer.Over update →
    ∃ invocation ∈ timer.invocations, invocation.ent.request = number
  inOrder :
    timer.invocations.Pairwise fun first second =>
      first.update = second.update → first.ent.due ≤ second.ent.due

/-- Each object is returned once when its entry has left the queue. -/
def ReturnedOnce (timer : SystemTimer) : Prop :=
  ∀ number request,
    timer.requests number = some request →
    ((∃ ent ∈ timer.head, ent.request = number) ∧ request.returned = 0) ∨
      ((∀ ent ∈ timer.head, ent.request ≠ number) ∧ request.returned = 1)

end SystemTimer

/-! ## The times -/

/-- A time with less than a second of nanoseconds. -/
def KTimespec.Normal (time : KTimespec) : Prop :=
  time.tvNsec < timerNsPerSec

/-- The comparison of normal times is that of their nanoseconds. -/
theorem calloutentCmp_neg
    {key ent : CallOutEnt}
    (keyNormal : key.expire.Normal)
    (entNormal : ent.expire.Normal) :
    calloutentCmp key ent < 0 ↔ key.expire.ns < ent.expire.ns := by
  simp only [KTimespec.Normal, KTimespec.ns, timerNsPerSec] at *
  rw [calloutentCmp]
  split_ifs <;> omega

theorem calloutentCmp_pos
    {key ent : CallOutEnt}
    (keyNormal : key.expire.Normal)
    (entNormal : ent.expire.Normal) :
    calloutentCmp key ent > 0 ↔ ent.expire.ns < key.expire.ns := by
  simp only [KTimespec.Normal, KTimespec.ns, timerNsPerSec] at *
  rw [calloutentCmp]
  split_ifs <;> omega

/-- The loop stops at an entry whose time is to come. -/
theorem notYet_iff
    {curtime : KTimespec}
    {ent : CallOutEnt}
    (normal : curtime.Normal)
    (entNormal : ent.expire.Normal) :
    notYet curtime ent = true ↔ curtime.ns < ent.expire.ns := by
  simp only [KTimespec.Normal, KTimespec.ns, timerNsPerSec] at *
  simp only [notYet, Bool.or_eq_true, Bool.and_eq_true, decide_eq_true_eq]
  omega

/-- An update adds its difference, and leaves a normal time. -/
theorem advance_normal
    {curtime : KTimespec}
    (normal : curtime.Normal)
    (diff : KTimespec) :
    (advance curtime diff).Normal ∧
      (advance curtime diff).ns = curtime.ns + diff.ns := by
  have below : curtime.tvNsec < timerNsPerSec :=
    normal
  cases shape : advance curtime diff with
  | mk sec nsec =>
      rw [advance] at shape
      simp only [KTimespec.Normal, KTimespec.ns]
      split at shape <;>
        · simp only [KTimespec.mk.injEq] at shape
          simp only [timerNsPerSec] at *
          omega

/-- Without a carry the time that is set is the one that is asked for. -/
theorem expireAt_normal
    {curtime : KTimespec}
    {relExpireMs : Nat}
    (noCarry : curtime.tvNsec + relNsec relExpireMs < timerNsPerSec) :
    (expireAt curtime relExpireMs).Normal ∧
      (expireAt curtime relExpireMs).ns =
        curtime.ns + relExpireMs * 1000 * 1000 := by
  rw [expireAt, if_neg (Nat.not_le.mpr noCarry)]
  refine ⟨noCarry, ?_⟩
  simp only [KTimespec.ns, relSec, relNsec, timerNsPerSec, timerMsPerSec]
  omega

/-! ## The invariant -/

namespace SystemTimer

/-- The record of a request whose entry is in the queue. -/
structure Waiting
    (timer : SystemTimer)
    (ent : CallOutEnt)
    (request : Request) : Prop where
  due : request.due = ent.due
  kept : request.cancelled = false ∧ request.returned = 0
  uncalled : ∀ invocation ∈ timer.invocations,
    invocation.ent.request ≠ ent.request
  dueNow : ∀ update,
    request.dueUpdate = some update →
    timer.invoking = true ∧ update = timer.updates
  noted : timer.invoking = true →
    (request.dueUpdate = some timer.updates ↔ ent.due ≤ timer.curtime.ns)

/-- The record of a request whose entry has left the queue. -/
inductive Settled
    (timer : SystemTimer)
    (number : Nat)
    (request : Request) : Prop where
  | cancelled
      (isCancelled : request.cancelled = true)
      (returned : request.returned = 1)
  | called
      (invocation : Invocation)
      (member : invocation ∈ timer.invocations)
      (same : invocation.ent.request = number)
      (due : request.due = invocation.ent.due)
      (inTime : request.dueUpdate = some invocation.update)
      (kept : request.cancelled = false ∧ request.returned = 0)

end SystemTimer

/-- The invariant of the clock, the queue and the record. -/
structure TimerSound (timer : SystemTimer) : Prop where
  normal : timer.curtime.Normal
  fresh : ∀ number,
    timer.nextRequest ≤ number → timer.requests number = none
  expire : ∀ ent ∈ timer.head,
    ent.expire.Normal ∧ ent.expire.ns = ent.due
  sorted : timer.head.Pairwise fun first second => first.due ≤ second.due
  distinct : (timer.head.map (·.request)).Nodup
  waiting : ∀ ent ∈ timer.head,
    ∃ request,
      timer.requests ent.request = some request ∧ timer.Waiting ent request
  settled : ∀ number request,
    timer.requests number = some request →
    (∃ ent ∈ timer.head, ent.request = number) ∨
      timer.Settled number request
  called : ∀ invocation ∈ timer.invocations,
    invocation.update ≤ timer.updates ∧
      ∃ request,
        timer.requests invocation.ent.request = some request ∧
          request.cancelled = false
  once : (timer.invocations.map (·.ent.request)).Nodup
  inOrder :
    timer.invocations.Pairwise fun first second =>
      first.update = second.update → first.ent.due ≤ second.ent.due
  current : timer.invoking = true →
    ∀ invocation ∈ timer.invocations,
      invocation.update = timer.updates →
      invocation.ent.due ≤ timer.curtime.ns ∧
        ∀ ent ∈ timer.head, invocation.ent.due ≤ ent.due

namespace TimerSound

variable {timer : SystemTimer}

/-- A request that was called is not in the queue. -/
theorem settled_called
    (sound : TimerSound timer)
    {invocation : Invocation}
    (member : invocation ∈ timer.invocations)
    {request : Request}
    (found : timer.requests invocation.ent.request = some request) :
    ∃ other ∈ timer.invocations,
      other.ent.request = invocation.ent.request ∧
        request.due = other.ent.due ∧
        request.dueUpdate = some other.update ∧
        request.cancelled = false ∧
        request.returned = 0 := by
  obtain ⟨-, same, sameFound, kept⟩ := sound.called invocation member
  rw [found] at sameFound
  cases sameFound
  rcases sound.settled _ _ found with ⟨ent, inQueue, number⟩ | settled
  · obtain ⟨record, -, waiting⟩ := sound.waiting ent inQueue
    exact absurd number.symm (waiting.uncalled invocation member)
  · cases settled with
    | cancelled isCancelled =>
        rw [kept] at isCancelled
        cases isCancelled
    | called other isMember isSame due inTime unreturned =>
        exact ⟨other, isMember, isSame, due, inTime, kept, unreturned.2⟩

/-- Two calls of one request are one. -/
theorem called_unique
    (sound : TimerSound timer)
    {first second : Invocation}
    (inFirst : first ∈ timer.invocations)
    (inSecond : second ∈ timer.invocations)
    (same : first.ent.request = second.ent.request) :
    first = second :=
  List.inj_on_of_nodup_map sound.once inFirst inSecond same

/-- The invariant says what the claim of the callouts says. -/
theorem served
    (sound : TimerSound timer) :
    timer.Served := by
  constructor
  case once => exact sound.once
  case inOrder => exact sound.inOrder
  case inTime =>
    intro invocation member
    obtain ⟨-, request, found, -⟩ := sound.called invocation member
    obtain ⟨other, isMember, same, due, inTime, kept, -⟩ :=
      sound.settled_called member found
    rw [sound.called_unique isMember member same] at due inTime
    exact ⟨request, found, due, inTime, kept⟩
  case noneLeft =>
    intro number request update found due kept isOver
    rcases sound.settled number request found with
      ⟨ent, inQueue, same⟩ | settled
    · obtain ⟨record, sameFound, waiting⟩ := sound.waiting ent inQueue
      rw [same, found] at sameFound
      cases sameFound
      obtain ⟨running, isLast⟩ := waiting.dueNow update due
      exact absurd isLast (Nat.ne_of_lt (isOver running))
    · cases settled with
      | cancelled isCancelled =>
          rw [kept] at isCancelled
          cases isCancelled
      | called invocation member same =>
          exact ⟨invocation, member, same⟩

/-- Objects are returned once exactly while no callout fell due. -/
theorem returnedOnce_iff
    (sound : TimerSound timer)
    (idle : timer.invoking = false) :
    timer.ReturnedOnce ↔
      ∀ number request,
        timer.requests number = some request →
        request.cancelled = true ∨ request.dueUpdate = none := by
  constructor
  · intro once number request found
    rcases sound.settled number request found with
      ⟨ent, inQueue, same⟩ | settled
    · obtain ⟨record, sameFound, waiting⟩ := sound.waiting ent inQueue
      rw [same, found] at sameFound
      cases sameFound
      cases due : request.dueUpdate with
      | none => exact .inr rfl
      | some update =>
          rw [(waiting.dueNow update due).1] at idle
          cases idle
    · cases settled with
      | cancelled isCancelled =>
          exact .inl isCancelled
      | called invocation member same due inTime kept =>
          rcases once number request found with
            ⟨⟨ent, inQueue, isEnt⟩, -⟩ | ⟨-, returned⟩
          · obtain ⟨record, -, waiting⟩ := sound.waiting ent inQueue
            exact absurd (same.trans isEnt.symm)
              (waiting.uncalled invocation member)
          · rw [kept.2] at returned
            cases returned
  · intro quiet number request found
    rcases sound.settled number request found with
      ⟨ent, inQueue, same⟩ | settled
    · obtain ⟨record, sameFound, waiting⟩ := sound.waiting ent inQueue
      rw [same, found] at sameFound
      cases sameFound
      exact .inl ⟨⟨ent, inQueue, same⟩, waiting.kept.2⟩
    · have left : ∀ ent ∈ timer.head,
          ent.request = number → request.cancelled = false ∧
            ∀ invocation ∈ timer.invocations,
              invocation.ent.request ≠ number := by
        intro ent inQueue same
        obtain ⟨record, sameFound, waiting⟩ := sound.waiting ent inQueue
        rw [same, found] at sameFound
        cases sameFound
        exact ⟨waiting.kept.1, same ▸ waiting.uncalled⟩
      cases settled with
      | cancelled isCancelled returned =>
          refine .inr ⟨fun ent inQueue same => ?_, returned⟩
          rw [(left ent inQueue same).1] at isCancelled
          cases isCancelled
      | called invocation member same due inTime kept =>
          rcases quiet number request found with isCancelled | notDue
          · rw [kept.1] at isCancelled
            cases isCancelled
          · rw [inTime] at notDue
            cases notDue

/-! ## The steps -/

/-- An update notes what falls due, and begins with nothing called. -/
theorem update
    (sound : TimerSound timer)
    (idle : timer.invoking = false)
    (diff : KTimespec) :
    TimerSound (timer.timUpdateWalltime diff) := by
  have idleDue : ∀ ent ∈ timer.head, ∀ request,
      timer.requests ent.request = some request →
      request.dueUpdate = none := by
    intro ent inQueue request found
    obtain ⟨record, sameFound, waiting⟩ := sound.waiting ent inQueue
    rw [found] at sameFound
    cases sameFound
    cases due : request.dueUpdate with
    | none => rfl
    | some update =>
        rw [(waiting.dueNow update due).1] at idle
        cases idle
  constructor
  case normal => exact (advance_normal sound.normal diff).1
  case fresh =>
    intro number isFresh
    simp [SystemTimer.timUpdateWalltime, sound.fresh number isFresh]
  case expire => exact sound.expire
  case sorted => exact sound.sorted
  case distinct => exact sound.distinct
  case waiting =>
    intro ent inQueue
    obtain ⟨request, found, waiting⟩ := sound.waiting ent inQueue
    have notDue := idleDue ent inQueue request found
    refine ⟨_, congrArg (Option.map _) found, ?_⟩
    constructor
    case due =>
      rw [SystemTimer.noteDue]
      split <;> exact waiting.due
    case kept =>
      rw [SystemTimer.noteDue]
      split <;> exact waiting.kept
    case uncalled => exact waiting.uncalled
    case dueNow =>
      intro update noted
      rw [SystemTimer.noteDue] at noted
      split at noted
      · cases noted
        exact ⟨rfl, rfl⟩
      · rw [notDue] at noted
        cases noted
    case noted =>
      intro _
      rw [SystemTimer.noteDue, ← waiting.due]
      split
      case isTrue both => exact ⟨fun _ => both.2, fun _ => rfl⟩
      case isFalse neither =>
        rw [notDue]
        exact ⟨nofun, fun due => absurd ⟨notDue, due⟩ neither⟩
  case settled =>
    intro number request found
    obtain ⟨before, foundBefore, same⟩ := Option.map_eq_some_iff.mp found
    rcases sound.settled number before foundBefore with inQueue | settled
    · exact .inl inQueue
    · refine .inr ?_
      subst same
      cases settled with
      | cancelled isCancelled returned =>
          refine .cancelled ?_ ?_ <;>
            · rw [SystemTimer.noteDue]
              split <;> assumption
      | called invocation member same due inTime kept =>
          have unchanged :
              SystemTimer.noteDue (advance timer.curtime diff).ns
                (timer.updates + 1) before = before :=
            if_neg fun both => by
              rw [inTime] at both
              cases both.1
          rw [unchanged]
          exact .called invocation member same due inTime kept
  case called =>
    intro invocation member
    obtain ⟨earlier, request, found, kept⟩ := sound.called invocation member
    refine ⟨Nat.le_succ_of_le earlier, _, congrArg (Option.map _) found, ?_⟩
    rw [SystemTimer.noteDue]
    split <;> exact kept
  case once => exact sound.once
  case inOrder => exact sound.inOrder
  case current =>
    intro _ invocation member isNow
    exact absurd isNow
      (Nat.ne_of_lt (Nat.lt_succ_of_le (sound.called invocation member).1))

/-- The loop ends when no entry of the queue is due. -/
theorem stop
    (sound : TimerSound timer)
    (running : timer.invoking = true)
    (none_due : ∀ ent ∈ timer.head, timer.curtime.ns < ent.due) :
    TimerSound { timer with invoking := false } := by
  constructor
  case normal => exact sound.normal
  case fresh => exact sound.fresh
  case expire => exact sound.expire
  case sorted => exact sound.sorted
  case distinct => exact sound.distinct
  case waiting =>
    intro ent inQueue
    obtain ⟨request, found, waiting⟩ := sound.waiting ent inQueue
    refine ⟨request, found, waiting.due, waiting.kept, waiting.uncalled, ?_,
      nofun⟩
    intro update noted
    have isNow := (waiting.dueNow update noted).2
    subst isNow
    exact absurd ((waiting.noted running).mp noted)
      (Nat.not_le.mpr (none_due ent inQueue))
  case settled =>
    intro number request found
    rcases sound.settled number request found with inQueue | settled
    · exact .inl inQueue
    · cases settled with
      | cancelled isCancelled returned =>
          exact .inr (.cancelled isCancelled returned)
      | called invocation member same due inTime kept =>
          exact .inr (.called invocation member same due inTime kept)
  case called => exact sound.called
  case once => exact sound.once
  case inOrder => exact sound.inOrder
  case current => exact nofun

/-- A due head is called: it is the first of those that are still to come. -/
theorem call
    (sound : TimerSound timer)
    (running : timer.invoking = true)
    {cur : CallOutEnt}
    {rest : List CallOutEnt}
    (queue : timer.head = cur :: rest)
    (due : cur.due ≤ timer.curtime.ns) :
    TimerSound
      { timer with
        head := rest
        invocations := timer.invocations ++ [⟨timer.updates, cur⟩] } := by
  have isHead : cur ∈ timer.head := by
    rw [queue]
    exact List.mem_cons_self
  have inRest : ∀ ent ∈ rest, ent ∈ timer.head := by
    intro ent member
    rw [queue]
    exact List.mem_cons_of_mem cur member
  obtain ⟨request, found, waiting⟩ := sound.waiting cur isHead
  have inTime := (waiting.noted running).mpr due
  have sorted := sound.sorted
  have distinct := sound.distinct
  rw [queue] at sorted distinct
  obtain ⟨least, sortedRest⟩ := List.pairwise_cons.mp sorted
  rw [List.map_cons, List.nodup_cons] at distinct
  have different : ∀ ent ∈ rest, cur.request ≠ ent.request :=
    fun ent member same =>
      distinct.1 (same ▸ List.mem_map_of_mem member)
  constructor
  case normal => exact sound.normal
  case fresh => exact sound.fresh
  case expire => exact fun ent member => sound.expire ent (inRest ent member)
  case sorted => exact sortedRest
  case distinct => exact distinct.2
  case waiting =>
    intro ent member
    obtain ⟨record, isFound, waits⟩ := sound.waiting ent (inRest ent member)
    refine ⟨record, isFound, waits.due, waits.kept, ?_, waits.dueNow,
      waits.noted⟩
    intro invocation called
    rcases List.mem_append.mp called with earlier | last
    · exact waits.uncalled invocation earlier
    · rw [List.mem_singleton.mp last]
      exact different ent member
  case settled =>
    intro number record isFound
    rcases sound.settled number record isFound with
      ⟨ent, inQueue, same⟩ | settled
    · rw [queue, List.mem_cons] at inQueue
      rcases inQueue with isCur | later
      · subst isCur
        rw [← same, found] at isFound
        cases isFound
        exact .inr (.called ⟨timer.updates, ent⟩
          (List.mem_append_right _ (List.mem_singleton.mpr rfl)) same
          waiting.due inTime waiting.kept)
      · exact .inl ⟨ent, later, same⟩
    · cases settled with
      | cancelled isCancelled returned =>
          exact .inr (.cancelled isCancelled returned)
      | called invocation member same recordDue isInTime kept =>
          exact .inr (.called invocation (List.mem_append_left _ member) same
            recordDue isInTime kept)
  case called =>
    intro invocation called
    rcases List.mem_append.mp called with earlier | last
    · exact sound.called invocation earlier
    · rw [List.mem_singleton.mp last]
      exact ⟨le_refl _, request, found, waiting.kept.1⟩
  case once =>
    rw [List.map_append, List.nodup_append]
    refine ⟨sound.once, List.nodup_singleton _, ?_⟩
    intro first inFirst second inSecond same
    obtain ⟨invocation, member, isFirst⟩ := List.mem_map.mp inFirst
    obtain ⟨last, isLast, isSecond⟩ := List.mem_map.mp inSecond
    rw [List.mem_singleton.mp isLast] at isSecond
    exact waiting.uncalled invocation member
      (isFirst.trans (same.trans isSecond.symm))
  case inOrder =>
    rw [List.pairwise_append]
    refine ⟨sound.inOrder, List.pairwise_singleton _ _, ?_⟩
    intro first earlier second last same
    rw [List.mem_singleton.mp last] at same ⊢
    exact (sound.current running first earlier same).2 cur isHead
  case current =>
    intro _ invocation called isNow
    rcases List.mem_append.mp called with earlier | last
    · obtain ⟨past, first⟩ := sound.current running invocation earlier isNow
      exact ⟨past, fun ent member => first ent (inRest ent member)⟩
    · rw [List.mem_singleton.mp last]
      exact ⟨due, least⟩

/-- An entry that leaves the queue as cancelled, its object returned. -/
theorem dequeue
    (sound : TimerSound timer)
    {cur : CallOutEnt}
    (isQueued : cur ∈ timer.head)
    (allocated : List Nat) :
    TimerSound
      { timer with
        head := timer.head.erase cur
        allocated
        requests :=
          Function.update timer.requests cur.request
            ((timer.requests cur.request).map fun request =>
              { request with
                cancelled := true
                returned := request.returned + 1 }) } := by
  obtain ⟨request, found, waiting⟩ := sound.waiting cur isQueued
  have stays : ∀ ent ∈ timer.head.erase cur, ent ∈ timer.head :=
    fun ent member => List.mem_of_mem_erase member
  have nodup : timer.head.Nodup :=
    List.Nodup.of_map _ sound.distinct
  have different : ∀ ent ∈ timer.head.erase cur,
      ent.request ≠ cur.request := by
    intro ent member same
    obtain ⟨isOther, inQueue⟩ := nodup.mem_erase_iff.mp member
    exact isOther
      (List.inj_on_of_nodup_map sound.distinct inQueue isQueued same)
  rw [found, Option.map_some]
  constructor
  case normal => exact sound.normal
  case fresh =>
    intro number isFresh
    have unused := sound.fresh number isFresh
    have notCur : number ≠ cur.request := by
      rintro rfl
      rw [found] at unused
      cases unused
    exact (Function.update_of_ne notCur _ _).trans unused
  case expire => exact fun ent member => sound.expire ent (stays ent member)
  case sorted => exact sound.sorted.sublist List.erase_sublist
  case distinct =>
    exact sound.distinct.sublist (List.erase_sublist.map _)
  case waiting =>
    intro ent member
    obtain ⟨record, recordFound, waits⟩ :=
      sound.waiting ent (stays ent member)
    exact ⟨record,
      (Function.update_of_ne (different ent member) _ _).trans recordFound,
      waits.due, waits.kept, waits.uncalled, waits.dueNow, waits.noted⟩
  case settled =>
    intro number record recordFound
    by_cases isCur : number = cur.request
    · subst isCur
      simp only [Function.update_self, Option.some.injEq] at recordFound
      subst recordFound
      exact .inr (.cancelled rfl (congrArg (· + 1) waiting.kept.2))
    · simp only [Function.update_of_ne isCur] at recordFound
      rcases sound.settled number record recordFound with
        ⟨ent, inQueue, same⟩ | settled
      · refine .inl ⟨ent, ?_, same⟩
        refine nodup.mem_erase_iff.mpr ⟨fun isEnt => ?_, inQueue⟩
        exact isCur (isEnt ▸ same.symm)
      · cases settled with
        | cancelled isCancelled returned =>
            exact .inr (.cancelled isCancelled returned)
        | called invocation member same due inTime kept =>
            exact .inr (.called invocation member same due inTime kept)
  case called =>
    intro invocation member
    obtain ⟨earlier, record, recordFound, kept⟩ :=
      sound.called invocation member
    exact ⟨earlier, record,
      (Function.update_of_ne (waiting.uncalled invocation member) _ _).trans
        recordFound, kept⟩
  case once => exact sound.once
  case inOrder => exact sound.inOrder
  case current =>
    intro running invocation member isNow
    obtain ⟨past, first⟩ := sound.current running invocation member isNow
    exact ⟨past, fun ent inQueue => first ent (stays ent inQueue)⟩

/-- A cancellation takes the entry at an address out, or changes nothing. -/
theorem cancel
    (sound : TimerSound timer)
    (addr : Nat) :
    TimerSound (timer.timCalloutCancel addr).2 := by
  rw [SystemTimer.timCalloutCancel]
  cases isFound : timer.head.find? (·.addr = addr) with
  | none => exact sound
  | some cur => exact sound.dequeue (List.mem_of_find?_eq_some isFound) _

/-- A new entry that is not behind the last one keeps the queue in order. -/
theorem enqueue
    (sound : TimerSound timer)
    {cur : CallOutEnt}
    {request : Request}
    (allocated : List Nat)
    (number : cur.request = timer.nextRequest)
    (expire : cur.expire.Normal ∧ cur.expire.ns = cur.due)
    (notPast : timer.curtime.ns ≤ cur.due)
    (notBehind : ∀ last ∈ timer.head.getLast?, cur.due ≤ last.due)
    (due : request.due = cur.due)
    (kept : request.cancelled = false ∧ request.returned = 0)
    (dueNow : ∀ update,
      request.dueUpdate = some update →
      timer.invoking = true ∧ update = timer.updates)
    (noted : timer.invoking = true →
      (request.dueUpdate = some timer.updates ↔
        cur.due ≤ timer.curtime.ns)) :
    TimerSound
      { timer with
        head := queueAddSort calloutentCmp .ascending cur timer.head
        allocated
        nextRequest := timer.nextRequest + 1
        requests :=
          Function.update timer.requests timer.nextRequest (some request) } := by
  have added := queueAddSort_perm calloutentCmp .ascending cur timer.head
  have inAdded : ∀ ent,
      ent ∈ queueAddSort calloutentCmp .ascending cur timer.head ↔
        ent = cur ∨ ent ∈ timer.head := by
    intro ent
    rw [added.mem_iff, List.mem_cons]
  have unused := sound.fresh timer.nextRequest (le_refl _)
  have old : ∀ other record,
      timer.requests other = some record → other ≠ timer.nextRequest := by
    rintro other record found rfl
    rw [unused] at found
    cases found
  have compares : ∀ ent ∈ timer.head,
      calloutentCmp cur ent < 0 ↔ cur.due < ent.due := by
    intro ent member
    obtain ⟨entNormal, entNs⟩ := sound.expire ent member
    rw [calloutentCmp_neg expire.1 entNormal, expire.2, entNs]
  constructor
  case normal => exact sound.normal
  case fresh =>
    intro other isFresh
    have notNew : other ≠ timer.nextRequest :=
      Nat.ne_of_gt (Nat.lt_of_succ_le isFresh)
    exact (Function.update_of_ne notNew _ _).trans
      (sound.fresh other (Nat.le_of_succ_le isFresh))
  case expire =>
    intro ent member
    rcases (inAdded ent).mp member with same | inQueue
    · exact same ▸ expire
    · exact sound.expire ent inQueue
  case sorted => exact queueAddSort_sorted compares sound.sorted notBehind
  case distinct =>
    refine ((added.map _).nodup_iff).mpr ?_
    rw [List.map_cons, List.nodup_cons]
    refine ⟨fun member => ?_, sound.distinct⟩
    obtain ⟨ent, inQueue, same⟩ := List.mem_map.mp member
    obtain ⟨record, found, -⟩ := sound.waiting ent inQueue
    exact old ent.request record found (same.trans number)
  case waiting =>
    intro ent member
    rcases (inAdded ent).mp member with same | inQueue
    · subst same
      refine ⟨request, ?_, due, kept, ?_, dueNow, noted⟩
      · simp only [number, Function.update_self]
      · intro invocation called same
        obtain ⟨-, record, found, -⟩ := sound.called invocation called
        exact old _ record found (same.trans number)
    · obtain ⟨record, found, waits⟩ := sound.waiting ent inQueue
      exact ⟨record,
        (Function.update_of_ne (old _ record found) _ _).trans found,
        waits.due, waits.kept, waits.uncalled, waits.dueNow, waits.noted⟩
  case settled =>
    intro other record recordFound
    by_cases isNew : other = timer.nextRequest
    · exact .inl ⟨cur, (inAdded cur).mpr (.inl rfl), number.trans isNew.symm⟩
    · simp only [Function.update_of_ne isNew] at recordFound
      rcases sound.settled other record recordFound with
        ⟨ent, inQueue, same⟩ | settled
      · exact .inl ⟨ent, (inAdded ent).mpr (.inr inQueue), same⟩
      · cases settled with
        | cancelled isCancelled returned =>
            exact .inr (.cancelled isCancelled returned)
        | called invocation member same due inTime kept =>
            exact .inr (.called invocation member same due inTime kept)
  case called =>
    intro invocation member
    obtain ⟨earlier, record, found, unchanged⟩ := sound.called invocation member
    exact ⟨earlier, record,
      (Function.update_of_ne (old _ record found) _ _).trans found, unchanged⟩
  case once => exact sound.once
  case inOrder => exact sound.inOrder
  case current =>
    intro running invocation member isNow
    obtain ⟨past, first⟩ := sound.current running invocation member isNow
    refine ⟨past, fun ent inQueue => ?_⟩
    rcases (inAdded ent).mp inQueue with same | isOld
    · exact same ▸ past.trans notPast
    · exact first ent isOld

/-- An addition in order keeps the invariant. -/
theorem add
    (sound : TimerSound timer)
    {relExpireMs callout privateInfo : Nat}
    {addr : Option Nat}
    {result : Except Errno Nat}
    {after : SystemTimer}
    (inOrder :
      AddedInOrder timer (.add relExpireMs callout privateInfo addr))
    (added :
      timer.timCalloutAdd relExpireMs callout privateInfo addr =
        some (result, after)) :
    TimerSound after := by
  cases addr with
  | none =>
      cases added
      exact sound
  | some addr =>
      rw [SystemTimer.timCalloutAdd] at added
      split at added
      · cases added
      cases added
      obtain ⟨noCarry, notBehind⟩ := inOrder
      obtain ⟨normal, ns⟩ := expireAt_normal noCarry
      refine sound.enqueue _ rfl ⟨normal, ns⟩ (Nat.le_add_right _ _) ?_ rfl
        ⟨rfl, rfl⟩ ?_ ?_
      · intro last isLast
        obtain ⟨lastNormal, lastNs⟩ :=
          sound.expire last (List.mem_of_getLast? isLast)
        have notAfter := (calloutentCmp_pos normal lastNormal).not.mp
          (notBehind last isLast)
        rw [← lastNs]
        exact ns.symm.trans_le (Nat.not_lt.mp notAfter)
      · intro update isDue
        split at isDue
        case isTrue both =>
          cases isDue
          exact ⟨both.1, rfl⟩
        case isFalse => cases isDue
      · intro running
        split
        case isTrue both => exact ⟨fun _ => both.2, fun _ => rfl⟩
        case isFalse neither =>
          exact ⟨nofun, fun isDue => absurd ⟨running, isDue⟩ neither⟩

/-- A turn of the loop calls the first entry that is due, or ends. -/
theorem turn
    (sound : TimerSound timer)
    (running : timer.invoking = true) :
    TimerSound timer.invokeCallout := by
  rw [SystemTimer.invokeCallout]
  split
  case h_1 queue => exact sound.stop running (by simp [queue])
  case h_2 cur rest queue =>
    have isHead : cur ∈ timer.head := by
      rw [queue]
      exact List.mem_cons_self
    obtain ⟨normal, ns⟩ := sound.expire cur isHead
    have stops := notYet_iff sound.normal normal
    rw [ns] at stops
    split
    case isTrue notDue =>
      have future := stops.mp notDue
      refine sound.stop running fun ent inQueue => ?_
      have sorted := sound.sorted
      rw [queue, List.pairwise_cons] at sorted
      rw [queue, List.mem_cons] at inQueue
      rcases inQueue with same | later
      · exact same ▸ future
      · exact future.trans_le (sorted.1 ent later)
    case isFalse isDue =>
      exact sound.call running queue (Nat.not_lt.mp (stops.not.mp isDue))

/-- Every step in order keeps the invariant. -/
theorem step
    {call : TimerCall}
    {after : SystemTimer}
    (sound : TimerSound timer)
    (stepped :
      Guarded AddedInOrder (StepOf timerNext) timer call after) :
    TimerSound after := by
  obtain ⟨inOrder, called⟩ := stepped
  cases call with
  | add relExpireMs callout privateInfo addr =>
      obtain ⟨⟨result, last⟩, added, same⟩ := Option.map_eq_some_iff.mp called
      cases same
      exact sound.add inOrder added
  | cancel addr =>
      cases called
      exact sound.cancel addr
  | update diff =>
      rw [StepOf, timerNext] at called
      split at called
      · cases called
      case isFalse idle =>
        cases called
        exact sound.update (Bool.eq_false_of_not_eq_true idle) diff
  | turn =>
      rw [StepOf, timerNext] at called
      split at called
      case isTrue running =>
        cases called
        exact sound.turn running
      · cases called

/-- At the start there are no requests. -/
theorem initial : TimerSound systemTimerInitializer := by
  constructor
  case normal => exact Nat.succ_pos _
  case fresh => exact fun _ _ => rfl
  all_goals simp [systemTimerInitializer]

end TimerSound

/--
In every run whose additions are in order each callout is served in time; and
each object is returned once exactly while no update has reached the time of a
callout that was not cancelled.
-/
theorem callouts_served
    {calls : List TimerCall}
    {timer : SystemTimer}
    (run :
      Run (Guarded AddedInOrder (StepOf timerNext)) systemTimerInitializer
        calls timer) :
    timer.Served ∧
      (timer.invoking = false →
        (timer.ReturnedOnce ↔
          ∀ number request,
            timer.requests number = some request →
            request.cancelled = true ∨ request.dueUpdate = none)) := by
  have sound : TimerSound timer :=
    run.invariant TimerSound.initial fun sound stepped => sound.step stepped
  exact ⟨sound.served, sound.returnedOnce_iff⟩

/--
Three callouts, of which one is cancelled from inside the first and one is
added there for at once.
-/
def threeCallouts : List TimerCall :=
  [.add 300 1 0 (some 10), .add 200 2 0 (some 11), .add 100 3 0 (some 12),
    .update ⟨0, 150000000⟩, .turn, .cancel 11, .add 0 4 0 (some 11), .turn,
    .turn]

/-- The callouts of the first update; the one of 300 ms is not yet due. -/
theorem callouts_served_threeCallouts :
    ∃ timer,
      execute (guardNext AddedInOrder timerNext) systemTimerInitializer
          threeCallouts = some timer ∧
        timer.invocations.map (fun invocation =>
          (invocation.update, invocation.ent.callout)) = [(1, 3), (1, 4)] ∧
        timer.Served ∧ ¬ timer.ReturnedOnce := by
  obtain ⟨timer, executed⟩ : ∃ timer,
      execute (guardNext AddedInOrder timerNext) systemTimerInitializer
        threeCallouts = some timer :=
    Option.isSome_iff_exists.mp (by decide +kernel)
  have facts :
      (execute (guardNext AddedInOrder timerNext) systemTimerInitializer
        threeCallouts).map
          (fun timer =>
            (timer.invocations.map (fun invocation =>
              (invocation.update, invocation.ent.callout)),
              timer.invoking, timer.requests 2)) =
        some ([(1, 3), (1, 4)], false,
          some ⟨100000000, some 1, false, 0⟩) := by
    decide +kernel
  rw [executed, Option.map_some, Option.some.injEq] at facts
  simp only [Prod.mk.injEq] at facts
  obtain ⟨called, idle, third⟩ := facts
  obtain ⟨served, returned⟩ :=
    callouts_served (Run.guarded_of_execute executed)
  refine ⟨timer, executed, called, served, fun once => ?_⟩
  rcases (returned idle).mp once 2 _ third with isCancelled | notDue
  · cases isCancelled
  · cases notDue

/-- A callout added behind the last one, and one whose nanoseconds carry. -/
def lateCallouts : List TimerCall :=
  [.add 100 1 0 (some 10), .add 200 2 0 (some 11), .update ⟨0, 150000000⟩,
    .turn]

/--
The callout of 100 ms waits behind the one of 200 ms while its update ends;
one of 200 ms that is set at 900 ms is not called at 1900 ms; and the object
of a callout that was called is not returned.
-/
theorem callouts_late_and_unreturned :
    ((execute timerNext systemTimerInitializer lateCallouts).map
      fun timer =>
        (timer.invoking, timer.invocations, timer.requests 0)) =
      some (false, [], some ⟨100000000, some 1, false, 0⟩) ∧
    ((execute timerNext systemTimerInitializer
        [.update ⟨0, 900000000⟩, .turn, .add 200 1 0 (some 10),
          .update ⟨1, 0⟩, .turn]).map
      fun timer =>
        (timer.invoking, timer.invocations, timer.requests 0)) =
      some (false, [], some ⟨1100000000, some 2, false, 0⟩) ∧
    ((execute timerNext systemTimerInitializer
        [.add 100 1 0 (some 10), .update ⟨1, 0⟩, .turn, .turn]).map
      fun timer =>
        (timer.invoking, timer.head, timer.allocated, timer.requests 0)) =
      some (false, [], [10], some ⟨100000000, some 1, false, 0⟩) := by
  decide +kernel

end RiscvWorkshop.Timer
