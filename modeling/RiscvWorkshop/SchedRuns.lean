import Mathlib
import RiscvWorkshop.SchedQueue
import RiscvWorkshop.ReadyQueue

namespace RiscvWorkshop.Sched

open Bitops ThreadWait

/-!
# No thread is lost

A thread that can run is on the ready queue, once, or is run by a CPU.  The
invariant is stated with some threads left out, which a section has in hand
while it moves them.
-/

namespace System

/-- The thread that `get_next_thread` takes. -/
def headThread (sys : System) : Option Nat :=
  match bitopsFfs sys.bitmap with
  | 0 => none
  | idx + 1 => (sys.que idx).head?

/-- A thread is on one queue of the ready queue, and once. -/
def LinkedOnce (sys : System) (t : Nat) : Prop :=
  ∃ prio < schedPrioNr, (sys.que prio).count t = 1 ∧
    ∀ other < schedPrioNr, other ≠ prio → t ∉ sys.que other

end System

/--
Who waits or exits can be dispatched, and `sched_schedule` switches to a thread
that no CPU runs and, unless it is an idle thread, that was switched away.
-/
def SwitchesBack (sys : System) : SchedAction → Prop
  | .schedSchedule cpu =>
      ∀ prev ∈ sys.current[cpu]?, ∀ idle ∈ sys.idleThreads[cpu]?,
        ∀ prevThr ∈ sys.threads prev,
          (prevThr.point ≠ .outside → prevThr.preempt = 0) ∧
          (prevThr.preempt = 0 →
            ∀ nextThr ∈ sys.threads (sys.headThread.getD idle),
              (sys.headThread.getD idle ∈ sys.current →
                sys.headThread.getD idle = prev ∧ prev ∈ sys.idleThreads) ∧
              (sys.headThread.getD idle ∉ sys.idleThreads →
                nextThr.resume = .afterThreadSwitch))
  | .initWqueEntry _ => True
  | .enqueWqueEntry _ _ => True
  | .wqueWakeup _ _ => True
  | .threadStart _ _ => True
  | .threadExit _ _ => True
  | .incPreempt _ => True
  | .decPreempt _ => True

instance (sys : System) : ∀ action, Decidable (SwitchesBack sys action)
  | .schedSchedule _ =>
      inferInstanceAs (Decidable (∀ prev ∈ _, ∀ idle ∈ _, ∀ prevThr ∈ _,
        (_ → _) ∧ (_ → ∀ nextThr ∈ _, (_ → _ ∧ _) ∧ (_ → _))))
  | .initWqueEntry _ => inferInstanceAs (Decidable True)
  | .enqueWqueEntry _ _ => inferInstanceAs (Decidable True)
  | .wqueWakeup _ _ => inferInstanceAs (Decidable True)
  | .threadStart _ _ => inferInstanceAs (Decidable True)
  | .threadExit _ _ => inferInstanceAs (Decidable True)
  | .incPreempt _ => inferInstanceAs (Decidable True)
  | .decPreempt _ => inferInstanceAs (Decidable True)

/--
A thread that is not blocked, exiting or idle is the current thread of a CPU
and runs, or can run and is linked once; and a thread that is linked can run.
-/
structure NoThreadLost (sys : System) : Prop where
  found : ∀ t thr, sys.threads t = some thr → t ∉ sys.idleThreads →
    thr.state ≠ .wait → thr.state ≠ .exit → thr.state ≠ .dead →
      (thr.state = .run ∧ t ∈ sys.current) ∨
        (thr.state = .runable ∧ sys.LinkedOnce t)
  runable : ∀ prio t, t ∈ sys.que prio →
    ∃ thr, sys.threads t = some thr ∧ thr.state = .runable

/-! ## The invariant -/

/-- A thread by itself. -/
structure ThreadSound (thr : Thread) : Prop where
  prio : thr.curPrio < schedPrioNr
  made : thr.state ≠ .dormant
  referable : thr.referable = true ∨
    (thr.state = .dead ∧ thr.point = .exiting)
  waits : thr.point = .initialized → thr.state = .wait

/-- The queues, the CPUs and the threads, but for those in hand. -/
structure SoundBut (hand : List Nat) (sys : System) : Prop where
  width : schedPrioNr ≤ 64 * sys.bitmap.length
  bits : ∀ prio, isset sys.bitmap prio = true ↔ sys.que prio ≠ []
  linked : ∀ {prio t}, t ∈ sys.que prio →
    ∃ thr, sys.threads t = some thr ∧ thr.state = .runable ∧ thr.curPrio = prio
  once : ∀ prio, (sys.que prio).Nodup
  threads : ∀ {t thr}, sys.threads t = some thr → ThreadSound thr
  idle : ∀ {t}, t ∈ sys.idleThreads → ∃ thr, sys.threads t = some thr ∧
    thr.point = .outside ∧ (thr.state = .run ∨ thr.state = .runable)
  apart : sys.current.Nodup
  existing : ∀ {t}, t ∈ sys.current → ∃ thr, sys.threads t = some thr
  waiting : ∀ {wq t}, t ∈ sys.wques wq →
    ∃ thr, sys.threads t = some thr ∧ thr.state = .wait ∧ thr.point = .enqueued
  onceWaiting : ∀ wq, (sys.wques wq).Nodup
  oneWque : ∀ {wq other t}, t ∈ sys.wques wq → t ∈ sys.wques other → wq = other
  running : ∀ {t thr}, t ∉ hand → sys.threads t = some thr →
    thr.state = .run → t ∈ sys.current
  queued : ∀ {t thr}, t ∉ hand → sys.threads t = some thr →
    t ∉ sys.idleThreads → thr.state = .runable → t ∈ sys.que thr.curPrio
  unlinked : ∀ {t thr}, t ∉ hand → t ∈ sys.current → sys.threads t = some thr →
    thr.point = .outside ∨ thr.point = .initialized → t ∉ sys.que thr.curPrio

section Steps

variable {sys after : System}
variable {hand : List Nat}
variable {t : Nat}
variable {thr changed : Thread}

/-- Nothing is lost where no thread is in hand. -/
theorem SoundBut.noThreadLost
    (sound : SoundBut [] sys) :
    NoThreadLost sys := by
  constructor
  case found =>
    intro t thr found notIdle notWait notExit notDead
    cases state : thr.state with
    | dormant => exact absurd state (sound.threads found).made
    | run => exact .inl ⟨rfl, sound.running List.not_mem_nil found state⟩
    | runable =>
        have member := sound.queued List.not_mem_nil found notIdle state
        refine .inr ⟨rfl, thr.curPrio, (sound.threads found).prio,
          List.count_eq_one_of_mem (sound.once _) member,
          fun other _ different there => ?_⟩
        obtain ⟨same, found', -, prio⟩ := sound.linked there
        rw [found, Option.some.injEq] at found'
        exact different (found' ▸ prio.symm)
    | wait => exact absurd state notWait
    | exit => exact absurd state notExit
    | dead => exact absurd state notDead
  case runable =>
    intro prio t member
    obtain ⟨thr, found, state, -⟩ := sound.linked member
    exact ⟨thr, found, state⟩

/-- More threads may be in hand. -/
theorem SoundBut.mono
    {more : List Nat}
    (sound : SoundBut hand sys)
    (subset : hand ⊆ more) :
    SoundBut more sys :=
  { sound with
    running := fun out => sound.running fun member => out (subset member)
    queued := fun out => sound.queued fun member => out (subset member)
    unlinked := fun out => sound.unlinked fun member => out (subset member) }

/-- One more thread is in hand. -/
theorem SoundBut.take
    (sound : SoundBut hand sys)
    (t : Nat) :
    SoundBut (t :: hand) sys :=
  sound.mono (List.subset_cons_self t hand)

/-- A thread that is where it belongs is out of hand. -/
theorem SoundBut.settle
    (sound : SoundBut (t :: hand) sys)
    (found : sys.threads t = some thr)
    (running : thr.state = .run → t ∈ sys.current)
    (queued : t ∉ sys.idleThreads → thr.state = .runable →
      t ∈ sys.que thr.curPrio)
    (unlinked : t ∈ sys.current →
      thr.point = .outside ∨ thr.point = .initialized →
        t ∉ sys.que thr.curPrio) :
    SoundBut hand sys := by
  have out {other : Nat} (notIn : other ∉ hand) (different : other ≠ t) :
      other ∉ t :: hand :=
    fun member => (List.mem_cons.mp member).elim different notIn
  refine { sound with running := ?_, queued := ?_, unlinked := ?_ }
  · intro other otherThr notIn there state
    by_cases same : other = t
    · subst same
      rw [found, Option.some.injEq] at there
      exact running (there ▸ state)
    · exact sound.running (out notIn same) there state
  · intro other otherThr notIn there notIdle state
    by_cases same : other = t
    · subst same
      rw [found, Option.some.injEq] at there
      exact there ▸ queued notIdle (there ▸ state)
    · exact sound.queued (out notIn same) there notIdle state
  · intro other otherThr notIn member there point
    by_cases same : other = t
    · subst same
      rw [found, Option.some.injEq] at there
      exact there ▸ unlinked member (there ▸ point)
    · exact sound.unlinked (out notIn same) member there point

/-! ## Threads -/

theorem setThread_self :
    (sys.setThread t thr).threads t = some thr :=
  Function.update_self ..

theorem setThread_of_ne
    {other : Nat}
    (different : other ≠ t) :
    (sys.setThread t thr).threads other = sys.threads other :=
  Function.update_of_ne different ..

/-- What holds of the new record and of the other ones holds of all. -/
theorem setThread_cases
    (property : Nat → Thread → Prop)
    (new : property t changed)
    (others : ∀ {other thr}, other ≠ t → sys.threads other = some thr →
      property other thr)
    {other : Nat}
    (there : (sys.setThread t changed).threads other = some thr) :
    property other thr := by
  by_cases same : other = t
  · subst same
    rw [setThread_self, Option.some.injEq] at there
    exact there ▸ new
  · rw [setThread_of_ne same] at there
    exact others same there

/-- A thread in hand that no queue has may become any sound thread. -/
theorem SoundBut.setThread
    (sound : SoundBut (t :: hand) sys)
    (unlinked : ∀ prio, t ∉ sys.que prio)
    (apart : ∀ wq, t ∉ sys.wques wq)
    (threadSound : ThreadSound changed)
    (idle : t ∈ sys.idleThreads →
      changed.point = .outside ∧
        (changed.state = .run ∨ changed.state = .runable)) :
    SoundBut (t :: hand) (sys.setThread t changed) := by
  have ne_of_out {other : Nat} (out : other ∉ t :: hand) : other ≠ t :=
    fun same => out (same ▸ List.mem_cons_self)
  constructor
  case width => exact sound.width
  case bits => exact sound.bits
  case linked =>
    intro prio other member
    have different : other ≠ t := fun same => unlinked prio (same ▸ member)
    rw [setThread_of_ne different]
    exact sound.linked member
  case once => exact sound.once
  case threads =>
    exact setThread_cases (fun _ thr => ThreadSound thr) threadSound
      fun _ there => sound.threads there
  case idle =>
    intro other member
    by_cases same : other = t
    · subst same
      exact ⟨changed, setThread_self, idle member⟩
    · rw [setThread_of_ne same]
      exact sound.idle member
  case apart => exact sound.apart
  case existing =>
    intro other member
    by_cases same : other = t
    · subst same
      exact ⟨changed, setThread_self⟩
    · rw [setThread_of_ne same]
      exact sound.existing member
  case waiting =>
    intro wq other member
    have different : other ≠ t := fun same => apart wq (same ▸ member)
    rw [setThread_of_ne different]
    exact sound.waiting member
  case onceWaiting => exact sound.onceWaiting
  case oneWque => exact sound.oneWque
  case running =>
    intro other thr out there
    rw [setThread_of_ne (ne_of_out out)] at there
    exact sound.running out there
  case queued =>
    intro other thr out there
    rw [setThread_of_ne (ne_of_out out)] at there
    exact sound.queued out there
  case unlinked =>
    intro other thr out member there
    rw [setThread_of_ne (ne_of_out out)] at there
    exact sound.unlinked out member there

/-- What the invariant is about may stay while the rest of a thread changes. -/
theorem SoundBut.relabel
    (sound : SoundBut hand sys)
    (found : sys.threads t = some thr)
    (state : changed.state = thr.state)
    (prio : changed.curPrio = thr.curPrio)
    (referable : changed.referable = thr.referable)
    (point : changed.point = thr.point) :
    SoundBut hand (sys.setThread t changed) := by
  have old {other : Nat} {otherThr : Thread}
      (there : (sys.setThread t changed).threads other = some otherThr) :
      ∃ was, sys.threads other = some was ∧ otherThr.state = was.state ∧
        otherThr.curPrio = was.curPrio ∧ otherThr.referable = was.referable ∧
        otherThr.point = was.point :=
    setThread_cases (fun other otherThr =>
        ∃ was, sys.threads other = some was ∧ otherThr.state = was.state ∧
          otherThr.curPrio = was.curPrio ∧
          otherThr.referable = was.referable ∧ otherThr.point = was.point)
      ⟨thr, found, state, prio, referable, point⟩
      (fun _ there => ⟨_, there, rfl, rfl, rfl, rfl⟩) there
  have new {other : Nat} {was : Thread} (there : sys.threads other = some was) :
      ∃ now, (sys.setThread t changed).threads other = some now ∧
        now.state = was.state ∧ now.curPrio = was.curPrio ∧
        now.point = was.point := by
    by_cases same : other = t
    · subst same
      rw [found, Option.some.injEq] at there
      subst there
      exact ⟨changed, setThread_self, state, prio, point⟩
    · exact ⟨was, (setThread_of_ne same).trans there, rfl, rfl, rfl⟩
  constructor
  case width => exact sound.width
  case bits => exact sound.bits
  case linked =>
    intro queue other member
    obtain ⟨was, there, runable, onQueue⟩ := sound.linked member
    obtain ⟨now, there, state, prio, -⟩ := new there
    exact ⟨now, there, state.trans runable, prio.trans onQueue⟩
  case once => exact sound.once
  case threads =>
    intro other otherThr there
    obtain ⟨was, there, state, prio, referable, point⟩ := old there
    obtain ⟨small, made, refs, waits⟩ := sound.threads there
    exact ⟨prio ▸ small, state ▸ made,
      by rw [referable, state, point]; exact refs,
      by rw [point, state]; exact waits⟩
  case idle =>
    intro other member
    obtain ⟨was, there, outside, states⟩ := sound.idle member
    obtain ⟨now, there, state, -, point⟩ := new there
    exact ⟨now, there, point.trans outside, state ▸ states⟩
  case apart => exact sound.apart
  case existing =>
    intro other member
    obtain ⟨was, there⟩ := sound.existing member
    obtain ⟨now, there, -⟩ := new there
    exact ⟨now, there⟩
  case waiting =>
    intro wq other member
    obtain ⟨was, there, waits, enqueued⟩ := sound.waiting member
    obtain ⟨now, there, state, -, point⟩ := new there
    exact ⟨now, there, state.trans waits, point.trans enqueued⟩
  case onceWaiting => exact sound.onceWaiting
  case oneWque => exact sound.oneWque
  case running =>
    intro other otherThr out there runs
    obtain ⟨was, there, state, -, -, -⟩ := old there
    exact sound.running out there (state ▸ runs)
  case queued =>
    intro other otherThr out there notIdle runable
    obtain ⟨was, there, state, prio, -, -⟩ := old there
    rw [prio]
    exact sound.queued out there notIdle (state ▸ runable)
  case unlinked =>
    intro other otherThr out member there at_
    obtain ⟨was, there, -, prio, -, point⟩ := old there
    rw [prio]
    exact sound.unlinked out member there (point ▸ at_)

/-! ## The ready queue -/

/-- A thread that is not on its own queue is on none. -/
theorem SoundBut.not_linked
    (sound : SoundBut hand sys)
    (found : sys.threads t = some thr)
    (notThere : thr.state = .runable → t ∉ sys.que thr.curPrio)
    (prio : Nat) :
    t ∉ sys.que prio := by
  intro member
  obtain ⟨same, there, state, place⟩ := sound.linked member
  rw [found, Option.some.injEq] at there
  subst there
  exact notThere state (place ▸ member)

/-- `sched_thread_add` of a thread in hand. -/
theorem SoundBut.schedThreadAdd
    (sound : SoundBut (t :: hand) sys)
    (found : sys.threads t = some thr)
    (referable : thr.referable = true)
    (added : sys.schedThreadAdd t = some after) :
    SoundBut (t :: hand) after ∧
      after.threads = sys.threads ∧
      after.idleThreads = sys.idleThreads ∧
      after.current = sys.current ∧
      after.wques = sys.wques ∧
      t ∈ after.que thr.curPrio ∧
      ∀ prio other, other ≠ t → other ∈ after.que prio →
        other ∈ sys.que prio := by
  simp only [System.schedThreadAdd, found, referable, Bool.true_eq_false,
    if_false] at added
  split at added
  case isTrue => cases added
  case isFalse stays =>
    rw [not_or, not_not] at stays
    obtain ⟨notThere, runable⟩ := stays
    cases added
    have small := (sound.threads found).prio
    have cases_que {prio other : Nat}
        (member : other ∈ Function.update sys.que thr.curPrio
          (sys.que thr.curPrio ++ [t]) prio) :
        other ∈ sys.que prio ∨ (other = t ∧ prio = thr.curPrio) := by
      by_cases same : prio = thr.curPrio
      · subst same
        rw [Function.update_self, List.mem_append, List.mem_singleton] at member
        exact member.imp_right fun isThread => ⟨isThread, rfl⟩
      · rw [Function.update_of_ne same] at member
        exact .inl member
    refine ⟨?_, rfl, rfl, rfl, rfl, ?_, fun prio other different member =>
      (cases_que member).resolve_right fun isThread => different isThread.1⟩
    · have right : BitsRight sys.que sys.bitmap :=
        ⟨sound.width, sound.bits⟩
      have pushed := right.push (t := t) small
      refine { sound with
        width := pushed.width, bits := pushed.bits, linked := ?_, once := ?_,
        queued := ?_, unlinked := ?_ }
      · intro prio other member
        rcases cases_que member with there | ⟨rfl, rfl⟩
        · exact sound.linked there
        · exact ⟨thr, found, runable, rfl⟩
      · intro prio
        change (Function.update sys.que thr.curPrio _ prio).Nodup
        by_cases same : prio = thr.curPrio
        · subst same
          rw [Function.update_self]
          exact List.Nodup.append (sound.once _) (List.nodup_singleton t)
            (List.disjoint_singleton.mpr notThere)
        · rw [Function.update_of_ne same]
          exact sound.once prio
      · intro other otherThr out there notIdle state
        have member := sound.queued out there notIdle state
        change other ∈ Function.update sys.que thr.curPrio _ otherThr.curPrio
        by_cases same : otherThr.curPrio = thr.curPrio
        · rw [same, Function.update_self]
          exact List.mem_append_left _ (same ▸ member)
        · rw [Function.update_of_ne same]
          exact member
      · intro other otherThr out member there point linked
        rcases cases_que linked with old | ⟨rfl, -⟩
        · exact sound.unlinked out member there point old
        · exact out List.mem_cons_self
    · change t ∈ Function.update sys.que thr.curPrio _ thr.curPrio
      rw [Function.update_self]
      exact List.mem_append_right _ (List.mem_singleton_self t)

/-- `get_next_thread`: nothing is linked, or the head is in hand. -/
theorem SoundBut.getNextThread
    (sound : SoundBut hand sys)
    {picked : Option Nat}
    (got : sys.getNextThread = some (picked, after)) :
    (sys.headThread = none ∧ picked = none ∧ after = sys ∧
        ∀ prio, sys.que prio = []) ∨
      ∃ t thr, sys.headThread = some t ∧ picked = some t ∧
        SoundBut (t :: hand) after ∧
        after.threads = sys.threads ∧
        after.idleThreads = sys.idleThreads ∧
        after.current = sys.current ∧
        after.wques = sys.wques ∧
        (∀ prio, t ∉ after.que prio) ∧
        sys.threads t = some thr ∧ thr.state = .runable ∧
        t ∈ sys.que thr.curPrio := by
  simp only [System.getNextThread, System.headThread] at got ⊢
  rcases bitopsFfs_eq sys.bitmap with ⟨none, clear⟩ | ⟨idx, inMap, place, set⟩
  · rw [none] at got ⊢
    cases got
    refine .inl ⟨rfl, rfl, rfl, fun prio => ?_⟩
    by_contra nonempty
    have set := (sound.bits prio).mpr nonempty
    by_cases inMap : prio < 64 * sys.bitmap.length
    · rw [clear prio inMap] at set
      cases set
    · obtain ⟨t, rest, queue⟩ := List.exists_cons_of_ne_nil nonempty
      obtain ⟨thr, found, -, same⟩ :=
        sound.linked (queue ▸ List.mem_cons_self : t ∈ sys.que prio)
      have small := (sound.threads found).prio
      have width := sound.width
      omega
  · rw [place] at got ⊢
    cases queue : sys.que idx with
    | nil => exact absurd queue ((sound.bits idx).mp set)
    | cons t rest =>
        obtain ⟨thr, found, runable, rfl⟩ :=
          sound.linked (queue ▸ List.mem_cons_self : t ∈ sys.que idx)
        simp only [queue, found, runable, if_true, Option.some.injEq,
          Prod.mk.injEq] at got
        obtain ⟨rfl, rfl⟩ := got
        have once := sound.once thr.curPrio
        rw [queue, List.nodup_cons] at once
        have subset {prio other : Nat}
            (member : other ∈ Function.update sys.que thr.curPrio rest prio) :
            other ∈ sys.que prio := by
          by_cases same : prio = thr.curPrio
          · subst same
            rw [Function.update_self] at member
            rw [queue]
            exact List.mem_cons_of_mem _ member
          · rwa [Function.update_of_ne same] at member
        refine .inr ⟨t, thr, by simp only [queue, List.head?_cons], rfl, ?_, rfl,
          rfl, rfl, rfl, fun prio member => ?_, found, runable,
          queue ▸ List.mem_cons_self⟩
        · have right : BitsRight sys.que sys.bitmap :=
            ⟨sound.width, sound.bits⟩
          have shrunk :=
            right.shrink inMap fun _ : rest ≠ [] => (sound.bits _).mp set
          refine { sound.take t with
            width := shrunk.width, bits := shrunk.bits, linked := ?_,
            once := ?_, queued := ?_, unlinked := ?_ }
          · exact fun member => sound.linked (subset member)
          · intro prio
            change (Function.update sys.que thr.curPrio rest prio).Nodup
            by_cases same : prio = thr.curPrio
            · subst same
              rw [Function.update_self]
              exact once.2
            · rw [Function.update_of_ne same]
              exact sound.once prio
          · intro other otherThr out there notIdle state
            have member := (sound.take t).queued out there notIdle state
            change other ∈ Function.update sys.que thr.curPrio rest otherThr.curPrio
            by_cases same : otherThr.curPrio = thr.curPrio
            · rw [same, queue, List.mem_cons] at member
              rw [same, Function.update_self]
              exact member.resolve_left fun isHead => out (isHead ▸ .head _)
            · rw [Function.update_of_ne same]
              exact member
          · intro other otherThr out member there point linked
            exact (sound.take t).unlinked out member there point (subset linked)
        · have there := subset member
          obtain ⟨same, found', -, place⟩ := sound.linked there
          rw [found, Option.some.injEq] at found'
          subst found' place
          change t ∈ Function.update sys.que thr.curPrio rest thr.curPrio at member
          rw [Function.update_self] at member
          exact once.1 member

/-! ## The CPUs -/

/-- Another place of a list keeps what it has when one is rewritten. -/
theorem mem_set_of_ne
    {current : List Nat}
    {cpu prev next other : Nat}
    (runs : current[cpu]? = some prev)
    (different : other ≠ prev)
    (member : other ∈ current) :
    other ∈ current.set cpu next := by
  obtain ⟨place, there⟩ := List.mem_iff_getElem?.mp member
  refine List.mem_iff_getElem?.mpr ⟨place, ?_⟩
  rw [List.getElem?_set_ne]
  · exact there
  · intro same
    rw [← same, runs, Option.some.injEq] at there
    exact different there.symm

/-- A CPU changes to a thread that no CPU runs; both threads are in hand. -/
theorem SoundBut.setCurrent
    (sound : SoundBut hand sys)
    {cpu prev next : Nat}
    (runs : sys.current[cpu]? = some prev)
    (prevInHand : prev ∈ hand)
    (nextInHand : next ∈ hand)
    (nextFound : sys.threads next = some thr)
    (free : next ∉ sys.current) :
    SoundBut hand { sys with current := sys.current.set cpu next } := by
  refine { sound with
    apart := ?_, existing := ?_, running := ?_, unlinked := ?_ }
  · exact sound.apart.set free
  · intro other member
    rcases List.mem_or_eq_of_mem_set member with old | isNext
    · exact sound.existing old
    · exact ⟨thr, isNext ▸ nextFound⟩
  · intro other otherThr out there state
    exact mem_set_of_ne runs (fun same => out (same ▸ prevInHand))
      (sound.running out there state)
  · intro other otherThr out member there point
    refine sound.unlinked out ?_ there point
    rcases List.mem_or_eq_of_mem_set member with old | isNext
    · exact old
    · exact absurd (isNext ▸ nextInHand) out

/-- The thread that was switched away is no longer run. -/
theorem SoundBut.not_mem_set
    (sound : SoundBut hand sys)
    {cpu prev next : Nat}
    (runs : sys.current[cpu]? = some prev)
    (different : prev ≠ next) :
    prev ∉ sys.current.set cpu next := by
  intro member
  obtain ⟨place, there⟩ := List.mem_iff_getElem?.mp member
  by_cases same : cpu = place
  · subst same
    have inList : cpu < sys.current.length :=
      (List.getElem?_eq_some_iff.mp runs).1
    rw [List.getElem?_set_self inList, Option.some.injEq] at there
    exact different there.symm
  · rw [List.getElem?_set_ne same] at there
    have inList : cpu < sys.current.length :=
      (List.getElem?_eq_some_iff.mp runs).1
    exact same
      ((List.getElem?_inj inList sound.apart).mp (runs.trans there.symm))

/-- `thr_thread_switch` to a thread in hand, from one that is where it belongs. -/
theorem SoundBut.threadSwitch
    {cpu prev next : Nat}
    {prevThr nextThr : Thread}
    (sound : SoundBut [next, prev] sys)
    (runs : sys.current[cpu]? = some prev)
    (free : next ∉ sys.current)
    (prevFound : sys.threads prev = some prevThr)
    (nextFound : sys.threads next = some nextThr)
    (prevStopped : prevThr.state ≠ .run)
    (prevQueued : prev ∉ sys.idleThreads → prevThr.state = .runable →
      prev ∈ sys.que prevThr.curPrio)
    (nextState : nextThr.state = .run ∨ nextThr.state = .runable)
    (nextUnlinked : ∀ prio, next ∉ sys.que prio)
    (resumes : next ∉ sys.idleThreads → nextThr.resume = .afterThreadSwitch)
    (switched : sys.threadSwitch cpu prev next = some after) :
    SoundBut [] after := by
  have different : prev ≠ next := fun same =>
    free (same ▸ List.mem_of_getElem? runs)
  simp only [System.threadSwitch, prevFound, nextFound] at switched
  let moved := { sys with current := sys.current.set cpu next }
  let saved := moved.setThread prev
    { prevThr with resume := .afterThreadSwitch }
  have soundSaved : SoundBut [next, prev] saved :=
    (sound.setCurrent runs (by simp) (by simp) nextFound free).relabel prevFound
      rfl rfl rfl rfl
  have nextSaved : saved.threads next = some nextThr :=
    (setThread_of_ne different.symm).trans nextFound
  have nextRuns : next ∈ saved.current := by
    refine List.mem_iff_getElem?.mpr ⟨cpu, ?_⟩
    exact List.getElem?_set_self (List.getElem?_eq_some_iff.mp runs).1
  have prevGone : prev ∉ saved.current := sound.not_mem_set runs different
  -- The previous thread is settled last, in either case.
  have settlePrev {final : System}
      (soundFinal : SoundBut [prev] final)
      (found : final.threads prev =
        some { prevThr with resume := .afterThreadSwitch })
      (current : final.current = saved.current)
      (idle : final.idleThreads = sys.idleThreads)
      (que : final.que = sys.que) :
      SoundBut [] final := by
    refine soundFinal.settle found (fun state => absurd state prevStopped) ?_ ?_
    · rw [idle, que]
      exact prevQueued
    · rw [current]
      exact fun member => absurd member prevGone
  split at switched
  case h_1 new =>
    cases switched
    have nextIdle : next ∈ sys.idleThreads := by
      by_contra notIdle
      rw [resumes notIdle] at new
      cases new
    refine settlePrev (soundSaved.settle nextSaved (fun _ => nextRuns)
      (fun notIdle => absurd nextIdle notIdle) fun _ _ => nextUnlinked _)
      setThread_self rfl rfl rfl
  case h_2 =>
    cases switched
    have notWaiting (wq : Nat) : next ∉ sys.wques wq := by
      intro member
      obtain ⟨same, found, waits, -⟩ := sound.waiting member
      rw [nextFound, Option.some.injEq] at found
      rw [← found] at waits
      rw [waits] at nextState
      exact nextState.elim nofun nofun
    have nextSound := sound.threads nextFound
    have referable : nextThr.referable = true := by
      refine nextSound.referable.resolve_right fun dead => ?_
      rw [dead.1] at nextState
      exact nextState.elim nofun nofun
    have soundNext : SoundBut [next, prev] (saved.setThread next
        { nextThr with state := .run, point := .outside }) :=
      soundSaved.setThread nextUnlinked notWaiting
        ⟨nextSound.prio, nofun, .inl referable, nofun⟩ fun _ => ⟨rfl, .inl rfl⟩
    refine settlePrev (soundNext.settle setThread_self (fun _ => nextRuns)
      (fun _ runable => nomatch runable) fun _ _ => nextUnlinked _)
      ((setThread_of_ne different).trans setThread_self) rfl rfl rfl

/-- A thread that is outside the wait functions returns as it is. -/
theorem SoundBut.returned
    (sound : SoundBut hand sys)
    (found : sys.threads t = some thr)
    (outside : thr.point = .outside) :
    SoundBut hand (sys.returned t) := by
  rw [System.returned, found]
  exact sound.relabel found rfl rfl rfl outside.symm

/-- `sched_schedule` after it has found the next thread. -/
theorem SoundBut.switchFrom
    {cpu prev next : Nat}
    {prevThr nextThr : Thread}
    (sound : SoundBut [next] sys)
    (runs : sys.current[cpu]? = some prev)
    (free : next ∉ sys.current)
    (prevFound : sys.threads prev = some prevThr)
    (nextFound : sys.threads next = some nextThr)
    (nextState : nextThr.state = .run ∨ nextThr.state = .runable)
    (nextUnlinked : ∀ prio, next ∉ sys.que prio)
    (resumes : next ∉ sys.idleThreads → nextThr.resume = .afterThreadSwitch)
    (switched :
      (if prevThr.state = .run then
        match (sys.setThread prev
            { prevThr with state := .runable }).schedThreadAdd prev with
        | none => none
        | some sys => sys.threadSwitch cpu prev next
      else
        sys.threadSwitch cpu prev next) = some after) :
    SoundBut [] after := by
  have different : prev ≠ next := fun same =>
    free (same ▸ List.mem_of_getElem? runs)
  have notNext : prev ∉ [next] := fun member =>
    different (List.mem_singleton.mp member)
  split at switched
  case isTrue run =>
    have prevSound := sound.threads prevFound
    have referable : prevThr.referable = true :=
      prevSound.referable.resolve_right fun dead => by
        rw [run] at dead
        cases dead.1
    have unlinked := sound.not_linked prevFound fun runable => by
      rw [run] at runable
      cases runable
    have notWaiting (wq : Nat) : prev ∉ sys.wques wq := by
      intro member
      obtain ⟨same, found, waits, -⟩ := sound.waiting member
      rw [prevFound, Option.some.injEq] at found
      rw [← found, run] at waits
      cases waits
    have stopped : SoundBut [prev, next]
        (sys.setThread prev { prevThr with state := .runable }) := by
      refine (sound.take prev).setThread unlinked notWaiting ?_ ?_
      · refine ⟨prevSound.prio, nofun, .inl referable, fun initialized => ?_⟩
        have waits := prevSound.waits initialized
        rw [run] at waits
        cases waits
      · intro idle
        obtain ⟨idleThr, found, outside, -⟩ := sound.idle idle
        rw [prevFound, Option.some.injEq] at found
        exact ⟨found ▸ outside, .inr rfl⟩
    split at switched
    case h_1 => cases switched
    case h_2 added addedEq =>
      obtain ⟨soundAdded, threads, idle, current, -, linked, others⟩ :=
        stopped.schedThreadAdd setThread_self referable addedEq
      have swapped : SoundBut [next, prev] added :=
        soundAdded.mono (List.Perm.swap next prev []).subset
      refine swapped.threadSwitch (current ▸ runs) (current ▸ free)
        (threads ▸ setThread_self)
        ((congrFun threads next).trans
          ((setThread_of_ne different.symm).trans nextFound))
        (by simp) (fun _ _ => linked) nextState
        (fun prio member => nextUnlinked prio
          (others prio next different.symm member))
        (idle ▸ resumes) switched
  case isFalse stopped =>
    have prevHand : SoundBut [next, prev] sys :=
      sound.mono (List.subset_append_left [next] [prev])
    exact prevHand.threadSwitch runs free prevFound nextFound stopped
      (fun notIdle state => sound.queued notNext prevFound notIdle state)
      nextState nextUnlinked resumes switched

/-- `sched_schedule`. -/
theorem SoundBut.schedSchedule
    (sound : SoundBut [] sys)
    {cpu : Nat}
    (switches : SwitchesBack sys (.schedSchedule cpu))
    (scheduled : sys.schedSchedule cpu = some after) :
    SoundBut [] after := by
  simp only [System.schedSchedule] at scheduled
  split at scheduled
  case h_2 => cases scheduled
  case h_1 prev idle runs idleOf =>
    have idleMember := List.mem_of_getElem? idleOf
    cases prevFound : sys.threads prev with
    | none =>
        simp only [prevFound] at scheduled
        cases scheduled
    | some prevThr =>
        obtain ⟨enabled, back⟩ := switches prev runs idle idleOf prevThr prevFound
        simp only [prevFound] at scheduled
        split at scheduled
        case isTrue => cases scheduled
        case isFalse =>
          split at scheduled
          case isTrue disabled =>
            cases scheduled
            refine sound.returned prevFound ?_
            by_contra inside
            exact disabled (enabled inside)
          case isFalse mayDispatch =>
            have back := back (not_not.mp mayDispatch)
            cases got : sys.getNextThread with
            | none =>
                simp only [got] at scheduled
                cases scheduled
            | some pair =>
                obtain ⟨picked, taken⟩ := pair
                simp only [got] at scheduled
                rcases sound.getNextThread got with
                  ⟨head, rfl, rfl, empty⟩ |
                    ⟨next, nextThr, head, rfl, soundTaken, threads, idles,
                      current, -, nextUnlinked, nextFound, runable, linked⟩
                · obtain ⟨idleThr, idleFound, outside, state⟩ :=
                    sound.idle idleMember
                  rw [head] at back
                  obtain ⟨free, resumes⟩ := back idleThr idleFound
                  simp only [Option.getD_none] at scheduled free resumes
                  split at scheduled
                  case isTrue same =>
                    cases scheduled
                    exact sound.returned (same ▸ idleFound) outside
                  case isFalse different =>
                    refine (sound.take idle).switchFrom runs
                      (fun member => different (free member).1.symm) prevFound
                      idleFound state (fun prio => ?_) resumes scheduled
                    rw [empty prio]
                    exact List.not_mem_nil
                · rw [head] at back
                  obtain ⟨free, resumes⟩ := back nextThr nextFound
                  simp only [Option.getD_some] at scheduled free resumes
                  split at scheduled
                  case isTrue same =>
                    subst same
                    have member := List.mem_of_getElem? runs
                    obtain ⟨idleThr, found, outside, -⟩ :=
                      sound.idle (free member).2
                    rw [nextFound, Option.some.injEq] at found
                    subst found
                    exact absurd linked (sound.unlinked List.not_mem_nil member
                      nextFound (.inl outside))
                  case isFalse different =>
                    exact soundTaken.switchFrom (current ▸ runs)
                      (fun member => different (free (current ▸ member)).1.symm)
                      (threads ▸ prevFound) (threads ▸ nextFound)
                      (.inr runable) nextUnlinked (idles ▸ resumes) scheduled

/-! ## The wait queues -/

/-- The head of a wait queue is taken off. -/
theorem SoundBut.popWque
    (sound : SoundBut hand sys)
    {wq : Nat}
    {rest : List Nat}
    (queue : sys.wques wq = t :: rest) :
    SoundBut hand { sys with wques := Function.update sys.wques wq rest } ∧
      ∀ other, t ∉ Function.update sys.wques wq rest other := by
  have once := sound.onceWaiting wq
  rw [queue, List.nodup_cons] at once
  have subset {place other : Nat}
      (member : other ∈ Function.update sys.wques wq rest place) :
      other ∈ sys.wques place := by
    by_cases same : place = wq
    · subst same
      rw [Function.update_self] at member
      rw [queue]
      exact List.mem_cons_of_mem _ member
    · rwa [Function.update_of_ne same] at member
  constructor
  · refine { sound with waiting := ?_, onceWaiting := ?_, oneWque := ?_ }
    · exact fun member => sound.waiting (subset member)
    · intro place
      change (Function.update sys.wques wq rest place).Nodup
      by_cases same : place = wq
      · subst same
        rw [Function.update_self]
        exact once.2
      · rw [Function.update_of_ne same]
        exact sound.onceWaiting place
    · exact fun one two => sound.oneWque (subset one) (subset two)
  · intro other member
    have head : t ∈ sys.wques wq := queue ▸ List.mem_cons_self
    have same := sound.oneWque (subset member) head
    subst same
    rw [Function.update_self] at member
    exact once.1 member

/-- A thread that waits is linked to a wait queue. -/
theorem SoundBut.pushWque
    (sound : SoundBut hand sys)
    (found : sys.threads t = some thr)
    (waits : thr.state = .wait)
    (enqueued : thr.point = .enqueued)
    (apart : ∀ wq, t ∉ sys.wques wq)
    (wq : Nat) :
    SoundBut hand
      { sys with wques := Function.update sys.wques wq (sys.wques wq ++ [t]) } := by
  have cases_wque {place other : Nat}
      (member : other ∈
        Function.update sys.wques wq (sys.wques wq ++ [t]) place) :
      other ∈ sys.wques place ∨ (other = t ∧ place = wq) := by
    by_cases same : place = wq
    · subst same
      rw [Function.update_self, List.mem_append, List.mem_singleton] at member
      exact member.imp_right fun isThread => ⟨isThread, rfl⟩
    · rw [Function.update_of_ne same] at member
      exact .inl member
  refine { sound with waiting := ?_, onceWaiting := ?_, oneWque := ?_ }
  · intro place other member
    rcases cases_wque member with old | ⟨rfl, -⟩
    · exact sound.waiting old
    · exact ⟨thr, found, waits, enqueued⟩
  · intro place
    change (Function.update sys.wques wq _ place).Nodup
    by_cases same : place = wq
    · subst same
      rw [Function.update_self]
      exact List.Nodup.append (sound.onceWaiting _) (List.nodup_singleton t)
        (List.disjoint_singleton.mpr (apart _))
    · rw [Function.update_of_ne same]
      exact sound.onceWaiting place
  · intro one two other inOne inTwo
    rcases cases_wque inOne with oldOne | ⟨rfl, rfl⟩
    · rcases cases_wque inTwo with oldTwo | ⟨rfl, -⟩
      · exact sound.oneWque oldOne oldTwo
      · exact absurd oldOne (apart one)
    · rcases cases_wque inTwo with oldTwo | ⟨-, rfl⟩
      · exact absurd oldTwo (apart two)
      · rfl

/-! ## The steps of a thread -/

/-- A thread that is not enqueued is on no wait queue. -/
theorem SoundBut.not_waiting
    (sound : SoundBut hand sys)
    (found : sys.threads t = some thr)
    (notEnqueued : thr.point ≠ .enqueued)
    (wq : Nat) :
    t ∉ sys.wques wq := by
  intro member
  obtain ⟨same, there, -, enqueued⟩ := sound.waiting member
  rw [found, Option.some.injEq] at there
  exact notEnqueued (there ▸ enqueued)

/-- What a step of the current thread changes. -/
theorem atCurrent_cases
    {cpu : Nat}
    {change : Thread → Option Thread}
    (changes : sys.atCurrent cpu change = some after) :
    ∃ t thr changed, sys.current[cpu]? = some t ∧ sys.threads t = some thr ∧
      change thr = some changed ∧ after = sys.setThread t changed := by
  simp only [System.atCurrent] at changes
  split at changes
  case h_1 => cases changes
  case h_2 t runs =>
    split at changes
    case h_1 => cases changes
    case h_2 thr found =>
      obtain ⟨changed, new, rfl⟩ := Option.map_eq_some_iff.mp changes
      exact ⟨t, thr, changed, runs, found, new, rfl⟩

/-- A thread that starts to wait or exits. -/
theorem SoundBut.fromOutside
    (sound : SoundBut [] sys)
    {cpu : Nat}
    {change : Thread → Thread}
    (leaves : ∀ thr, ThreadSound thr → thr.point = .outside →
      ThreadSound (change thr) ∧
        (change thr).state ≠ .run ∧ (change thr).state ≠ .runable)
    (changes : sys.fromOutside cpu change = some after) :
    SoundBut [] after := by
  simp only [System.fromOutside] at changes
  split at changes
  case h_1 => cases changes
  case h_2 t runs =>
    split at changes
    case isTrue => cases changes
    case isFalse notIdle =>
      obtain ⟨same, thr, changed, there, found, new, rfl⟩ :=
        atCurrent_cases changes
      rw [runs, Option.some.injEq] at there
      subst there
      split at new
      case isFalse => cases new
      case isTrue outside =>
        cases new
        have member := List.mem_of_getElem? runs
        have unlinked := sound.not_linked found fun _ =>
          sound.unlinked List.not_mem_nil member found (.inl outside)
        have notWaiting := sound.not_waiting found (by rw [outside]; nofun)
        obtain ⟨threadSound, notRun, notRunable⟩ :=
          leaves thr (sound.threads found) outside
        refine ((sound.take t).setThread unlinked notWaiting threadSound
          fun idle => absurd idle notIdle).settle setThread_self
            (fun run => absurd run notRun)
            (fun _ runable => absurd runable notRunable)
            fun _ _ => unlinked _

/-- `init_wque_entry_nolock`. -/
theorem SoundBut.initWqueEntry
    (sound : SoundBut [] sys)
    {cpu : Nat}
    (initialized : sys.initWqueEntry cpu = some after) :
    SoundBut [] after := by
  refine sound.fromOutside (fun thr threadSound outside => ?_) initialized
  have referable : thr.referable = true :=
    threadSound.referable.resolve_right fun dead => by
      rw [outside] at dead
      cases dead.2
  exact ⟨⟨threadSound.prio, nofun, .inl referable, fun _ => rfl⟩, nofun, nofun⟩

/-- `thr_thread_exit`. -/
theorem SoundBut.threadExit
    (sound : SoundBut [] sys)
    {cpu : Nat}
    {last : Bool}
    (exited : sys.threadExit cpu last = some after) :
    SoundBut [] after := by
  refine sound.fromOutside (fun thr threadSound _ => ?_) exited
  cases last with
  | true =>
      exact ⟨⟨threadSound.prio, nofun, .inr ⟨rfl, rfl⟩, nofun⟩, nofun, nofun⟩
  | false => exact ⟨⟨threadSound.prio, nofun, .inl rfl, nofun⟩, nofun, nofun⟩

/-- `enque_wque_entry`. -/
theorem SoundBut.enqueWqueEntry
    (sound : SoundBut [] sys)
    {cpu wq : Nat}
    (enqueued : sys.enqueWqueEntry cpu wq = some after) :
    SoundBut [] after := by
  simp only [System.enqueWqueEntry] at enqueued
  split at enqueued
  case h_1 => cases enqueued
  case h_2 t runs =>
    obtain ⟨same, thr, changed, there, found, new, rfl⟩ :=
      atCurrent_cases enqueued
    change sys.current[cpu]? = some same at there
    rw [runs, Option.some.injEq] at there
    subst there
    split at new
    case isFalse => cases new
    case isTrue initialized =>
      cases new
      have member := List.mem_of_getElem? runs
      have threadSound := sound.threads found
      have waits := threadSound.waits initialized
      have unlinked := sound.not_linked found fun runable => by
        rw [waits] at runable
        cases runable
      have notWaiting := sound.not_waiting found (by rw [initialized]; nofun)
      have referable : thr.referable = true :=
        threadSound.referable.resolve_right fun dead => by
          rw [waits] at dead
          cases dead.1
      have notIdle : t ∉ sys.idleThreads := by
        intro idle
        obtain ⟨idleThr, same, outside, -⟩ := sound.idle idle
        rw [found, Option.some.injEq] at same
        rw [← same, initialized] at outside
        cases outside
      let entered := { thr with point := WaitPoint.enqueued, reason := .wait }
      have enteredSound : ThreadSound entered :=
        ⟨threadSound.prio, threadSound.made, .inl referable, nofun⟩
      have soundEntered : SoundBut [] (sys.setThread t entered) := by
        refine ((sound.take t).setThread unlinked notWaiting enteredSound
          fun idle => absurd idle notIdle).settle setThread_self ?_ ?_
          fun _ _ => unlinked _
        · intro run
          change thr.state = .run at run
          rw [waits] at run
          cases run
        · intro _ runable
          change thr.state = .runable at runable
          rw [waits] at runable
          cases runable
      exact soundEntered.pushWque setThread_self waits rfl notWaiting wq

/-- One turn of the loop of `wque_wakeup`. -/
theorem SoundBut.wqueWakeup
    (sound : SoundBut [] sys)
    {wq : Nat}
    {reason : WqueReason}
    (woken : sys.wqueWakeup wq reason = some after) :
    SoundBut [] after := by
  simp only [System.wqueWakeup] at woken
  split at woken
  case h_1 =>
    cases woken
    exact sound
  case h_2 t rest queue =>
    obtain ⟨popped, apart⟩ := sound.popWque queue
    obtain ⟨thr, found, waits, enqueued⟩ :=
      sound.waiting (queue ▸ List.mem_cons_self : t ∈ sys.wques wq)
    have threadSound := sound.threads found
    simp only [found] at woken
    split at woken
    case isFalse =>
      cases woken
      exact popped.relabel found rfl rfl rfl rfl
    case isTrue referable =>
      have unlinked := sound.not_linked found fun runable => by
        rw [waits] at runable
        cases runable
      have notIdle : t ∉ sys.idleThreads := by
        intro idle
        obtain ⟨idleThr, same, outside, -⟩ := sound.idle idle
        rw [found, Option.some.injEq] at same
        rw [← same, enqueued] at outside
        cases outside
      let runable := { thr with state := ThrState.runable, reason }
      have runableSound : ThreadSound runable := by
        refine ⟨threadSound.prio, nofun, .inl referable, fun initialized => ?_⟩
        change thr.point = .initialized at initialized
        rw [enqueued] at initialized
        cases initialized
      obtain ⟨soundAdded, threads, -, -, -, linked, -⟩ :=
        ((popped.take t).setThread unlinked apart runableSound
          fun idle => absurd idle notIdle).schedThreadAdd setThread_self
            referable woken
      refine soundAdded.settle ((congrFun threads t).trans setThread_self) nofun
        (fun _ _ => linked) fun _ outside => ?_
      change thr.point = .outside ∨ thr.point = .initialized at outside
      rw [enqueued] at outside
      rcases outside with no | no <;> cases no

/-- A thread is made and started. -/
theorem SoundBut.threadStart
    (sound : SoundBut [] sys)
    {prio : Nat}
    (started : sys.threadStart t prio = some after) :
    SoundBut [] after := by
  simp only [System.threadStart] at started
  split at started
  case isFalse => cases started
  case isTrue fits =>
    obtain ⟨small, fresh⟩ := fits
    have unlinked (queue : Nat) : t ∉ sys.que queue := by
      intro member
      obtain ⟨thr, found, -⟩ := sound.linked member
      rw [fresh] at found
      cases found
    have notWaiting (wq : Nat) : t ∉ sys.wques wq := by
      intro member
      obtain ⟨thr, found, -⟩ := sound.waiting member
      rw [fresh] at found
      cases found
    have notIdle : t ∉ sys.idleThreads := by
      intro idle
      obtain ⟨thr, found, -⟩ := sound.idle idle
      rw [fresh] at found
      cases found
    have notRunning : t ∉ sys.current := by
      intro member
      obtain ⟨thr, found⟩ := sound.existing member
      rw [fresh] at found
      cases found
    have newSound : ThreadSound (newThread prio) :=
      ⟨small, nofun, .inl rfl, nofun⟩
    obtain ⟨soundAdded, threads, -, current, -, linked, -⟩ :=
      ((sound.take t).setThread unlinked notWaiting newSound
        fun idle => absurd idle notIdle).schedThreadAdd setThread_self rfl started
    exact soundAdded.settle ((congrFun threads t).trans setThread_self) nofun
      (fun _ _ => linked) fun member => absurd (current ▸ member) notRunning

/-- `ti_inc_preempt` and `ti_inc_intr`. -/
theorem SoundBut.incPreempt
    (sound : SoundBut [] sys)
    {cpu : Nat}
    (changed : sys.incPreempt cpu = some after) :
    SoundBut [] after := by
  obtain ⟨t, thr, new, -, found, changes, rfl⟩ := atCurrent_cases changed
  cases changes
  exact sound.relabel found rfl rfl rfl rfl

/-- `ti_dec_preempt` and `ti_dec_intr`. -/
theorem SoundBut.decPreempt
    (sound : SoundBut [] sys)
    {cpu : Nat}
    (changed : sys.decPreempt cpu = some after) :
    SoundBut [] after := by
  obtain ⟨t, thr, new, -, found, changes, rfl⟩ := atCurrent_cases changed
  split at changes
  case h_1 => cases changes
  case h_2 =>
    cases changes
    exact sound.relabel found rfl rfl rfl rfl

/-! ## Runs -/

/-- One step. -/
theorem SoundBut.step
    (sound : SoundBut [] sys)
    {action : SchedAction}
    (switches : SwitchesBack sys action)
    (stepped : schedNext sys action = some after) :
    SoundBut [] after := by
  cases action with
  | initWqueEntry => exact sound.initWqueEntry stepped
  | enqueWqueEntry => exact sound.enqueWqueEntry stepped
  | schedSchedule => exact sound.schedSchedule switches stepped
  | wqueWakeup => exact sound.wqueWakeup stepped
  | threadStart => exact sound.threadStart stepped
  | threadExit => exact sound.threadExit stepped
  | incPreempt => exact sound.incPreempt stepped
  | decPreempt => exact sound.decPreempt stepped

/-- `sched_init`. -/
theorem schedInit_sound
    {idleThreads : List Nat}
    (apart : idleThreads.Nodup) :
    SoundBut [] (schedInit idleThreads) := by
  have idle {t : Nat} (member : t ∈ idleThreads) :
      (schedInit idleThreads).threads t = some (newThread (schedPrioNr - 1)) :=
    if_pos member
  have threads {t : Nat} {thr : Thread}
      (found : (schedInit idleThreads).threads t = some thr) :
      t ∈ idleThreads ∧ thr = newThread (schedPrioNr - 1) := by
    by_cases member : t ∈ idleThreads
    · rw [idle member, Option.some.injEq] at found
      exact ⟨member, found.symm⟩
    · simp only [schedInit, if_neg member] at found
      cases found
  constructor
  case width => exact Nat.le_refl _
  case bits =>
    intro prio
    refine iff_of_false ?_ fun nonempty => nonempty rfl
    rw [schedInit, isset_bitopsZero]
    exact Bool.false_ne_true
  case linked => exact fun member => absurd member List.not_mem_nil
  case once => exact fun _ => List.nodup_nil
  case threads =>
    intro t thr found
    rw [(threads found).2]
    exact
      ⟨by decide, (fun dormant => by cases dormant), .inl rfl,
        (fun initialized => by cases initialized)⟩
  case idle => exact fun member => ⟨_, idle member, rfl, .inr rfl⟩
  case apart => exact apart
  case existing => exact fun member => ⟨_, idle member⟩
  case waiting => exact fun member => absurd member List.not_mem_nil
  case onceWaiting => exact fun _ => List.nodup_nil
  case oneWque => exact fun member => absurd member List.not_mem_nil
  case running =>
    intro t thr _ found run
    rw [(threads found).2] at run
    cases run
  case queued => exact fun _ found notIdle => absurd (threads found).1 notIdle
  case unlinked => exact fun _ _ _ _ member => absurd member List.not_mem_nil

end Steps

/-! ## Runs of one CPU -/

/-- A thread runs and another one waits; both were switched away before. -/
def oneWaits : System :=
  { schedInit [0] with
    threads := fun t =>
      [{ newThread 255 with resume := .afterThreadSwitch },
        { newThread 255 with state := .run, resume := .afterThreadSwitch },
        { newThread 200 with
          state := .wait, resume := .afterThreadSwitch,
          point := .enqueued }][t]?
    current := [1]
    wques := fun wq => if wq = 7 then [2] else [] }

theorem oneWaits_threads
    {t : Nat}
    {thr : Thread}
    (found : oneWaits.threads t = some thr) :
    (t = 0 ∧ thr.state = .runable ∧ thr.point = .outside ∨
      t = 1 ∧ thr.state = .run ∧ thr.point = .outside ∨
      t = 2 ∧ thr.state = .wait ∧ thr.point = .enqueued) ∧
    thr.curPrio < schedPrioNr ∧ thr.referable = true := by
  match t, found with
  | 0, rfl => exact ⟨.inl ⟨rfl, rfl, rfl⟩, by decide, rfl⟩
  | 1, rfl => exact ⟨.inr (.inl ⟨rfl, rfl, rfl⟩), by decide, rfl⟩
  | 2, rfl => exact ⟨.inr (.inr ⟨rfl, rfl, rfl⟩), by decide, rfl⟩

/-- The thread that waits is on one wait queue. -/
theorem mem_oneWaits_wques
    {wq t : Nat}
    (member : t ∈ oneWaits.wques wq) :
    wq = 7 ∧ t = 2 := by
  change t ∈ (if wq = 7 then [2] else []) at member
  split at member
  case isTrue same => exact ⟨same, List.mem_singleton.mp member⟩
  case isFalse => exact absurd member List.not_mem_nil

theorem oneWaits_sound :
    SoundBut [] oneWaits := by
  have init : SoundBut [] (schedInit [0]) := schedInit_sound (by decide)
  constructor
  case width => exact init.width
  case bits => exact init.bits
  case linked => exact fun member => absurd member List.not_mem_nil
  case once => exact init.once
  case threads =>
    intro t thr found
    obtain ⟨which, small, referable⟩ := oneWaits_threads found
    refine ⟨small, ?_, .inl referable, ?_⟩
    · rcases which with ⟨-, state, -⟩ | ⟨-, state, -⟩ | ⟨-, state, -⟩ <;>
        rw [state] <;> nofun
    · rcases which with ⟨-, -, point⟩ | ⟨-, -, point⟩ | ⟨-, -, point⟩ <;>
        rw [point] <;> nofun
  case idle =>
    intro t member
    cases List.mem_singleton.mp member
    exact ⟨_, rfl, rfl, .inr rfl⟩
  case apart => exact List.nodup_singleton 1
  case existing =>
    intro t member
    cases List.mem_singleton.mp member
    exact ⟨_, rfl⟩
  case waiting =>
    intro wq t member
    obtain ⟨-, rfl⟩ := mem_oneWaits_wques member
    exact ⟨_, rfl, rfl, rfl⟩
  case onceWaiting =>
    intro wq
    change (if wq = 7 then [2] else []).Nodup
    split <;> decide
  case oneWque =>
    exact fun one two =>
      (mem_oneWaits_wques one).1.trans (mem_oneWaits_wques two).1.symm
  case running =>
    intro t thr _ found run
    rcases (oneWaits_threads found).1 with
      ⟨-, state, -⟩ | ⟨rfl, -, -⟩ | ⟨-, state, -⟩
    · rw [run] at state
      cases state
    · exact List.mem_singleton_self 1
    · rw [run] at state
      cases state
  case queued =>
    intro t thr _ found notIdle runable
    rcases (oneWaits_threads found).1 with
      ⟨rfl, -, -⟩ | ⟨-, state, -⟩ | ⟨-, state, -⟩
    · exact absurd (List.mem_singleton_self 0) notIdle
    · rw [runable] at state
      cases state
    · rw [runable] at state
      cases state
  case unlinked => exact fun _ _ _ _ member => absurd member List.not_mem_nil

/-- The first thread waits, runs again, and is preempted by the second one. -/
def waitAndPreempt : List SchedAction :=
  [.wqueWakeup 7 .released, .initWqueEntry 0, .enqueWqueEntry 0 5,
    .schedSchedule 0, .wqueWakeup 5 .released, .initWqueEntry 0,
    .enqueWqueEntry 0 7, .schedSchedule 0, .wqueWakeup 7 .delivev,
    .schedSchedule 0]

/-- A new thread is dispatched. -/
def dispatchNew : List SchedAction :=
  [.threadStart 1 200, .schedSchedule 0]

/--
From then on it waits once, and the next time that it waits it is woken before
it gets to the scheduler.
-/
def wokenBeforeSchedule : List SchedAction :=
  dispatchNew ++
    [.initWqueEntry 0, .enqueWqueEntry 0 5, .schedSchedule 0,
      .wqueWakeup 5 .released, .schedSchedule 0, .initWqueEntry 0,
      .enqueWqueEntry 0 5, .wqueWakeup 5 .released, .schedSchedule 0]

/-- What a system with a lost thread looks like from outside. -/
def System.loses (sys : System) (t : Nat) : Bool :=
  (sys.threads t).any (fun thr => thr.state = .runable) &&
    decide (t ∉ sys.idleThreads) &&
    decide (∀ prio < schedPrioNr, t ∉ sys.que prio)

/-- A thread that can run, is not linked and does not run is lost. -/
theorem not_noThreadLost
    {sys : System}
    {t : Nat}
    (loses : sys.loses t = true) :
    ¬ NoThreadLost sys := by
  intro none
  simp only [System.loses, Bool.and_eq_true, decide_eq_true_eq,
    Option.any_eq_true] at loses
  obtain ⟨⟨⟨thr, found, runable⟩, notIdle⟩, unlinked⟩ := loses
  rcases none.found t thr found notIdle (by rw [runable]; nofun)
    (by rw [runable]; nofun) (by rw [runable]; nofun) with
    ⟨run, -⟩ | ⟨-, prio, small, once, -⟩
  · rw [runable] at run
    cases run
  · rw [List.count_eq_zero.mpr (unlinked prio small)] at once
    cases once

/-- A run that ends with a lost thread, and with the threads of the CPUs. -/
theorem run_loses
    {start : System}
    {actions : List SchedAction}
    (t : Nat)
    {current : List Nat}
    (facts :
      (execute schedNext start actions).map
          (fun sys => (sys.current, sys.loses t)) =
        some (current, true)) :
    ∃ sys,
      execute schedNext start actions = some sys ∧
        sys.current = current ∧
        ¬ NoThreadLost sys := by
  obtain ⟨sys, executed, ends⟩ := Option.map_eq_some_iff.mp facts
  simp only [Prod.mk.injEq] at ends
  exact ⟨sys, executed, ends.1, not_noThreadLost ends.2⟩

end RiscvWorkshop.Sched
