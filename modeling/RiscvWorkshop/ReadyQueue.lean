import Mathlib
import RiscvWorkshop.Run
import RiscvWorkshop.Bitops
import RiscvWorkshop.SchedQueue

namespace RiscvWorkshop.Sched

open Bitops ThreadWait

/-!
# The order of the ready queue

Threads are put on the ready queue, taken off it again and picked from it, in
any order, while other code does what it likes to the threads that are not on
it.  A log of the calls says which threads wait and since when.
-/

namespace System

/-- The priority of a thread. -/
def curPrio (sys : System) (t : Nat) : Option Nat :=
  (sys.threads t).map (·.curPrio)

/--
`sched_thread_del`.  The links of a thread that is on no queue are its own, so
that unlinking it leaves the queues alone.
-/
def schedThreadDel (sys : System) (t : Nat) : Option System :=
  match sys.threads t with
  | none => none
  | some thr =>
      let rest := (sys.que thr.curPrio).erase t
      some
        { sys with
          que := Function.update sys.que thr.curPrio rest
          bitmap :=
            if rest = [] then bitopsClr thr.curPrio sys.bitmap
            else sys.bitmap }

end System

/-- What happened to a thread at the ready queue. -/
inductive ReadyEvent where
  | added (t : Nat)
  | deleted (t : Nat)
  | returned (t : Nat)
deriving Repr, DecidableEq

/-- The threads that wait after an event, first come first. -/
def waitAfter (waiting : List Nat) : ReadyEvent → List Nat
  | .added t => waiting ++ [t]
  | .deleted t => waiting.erase t
  | .returned t => waiting.erase t

/-- The threads that wait at the end of a log. -/
def waitingIn (log : List ReadyEvent) : List Nat :=
  log.foldl waitAfter []

/-- The threads and their queues, with what happened at the queues. -/
structure ReadyHistory where
  sys : System
  log : List ReadyEvent

/-- A call, or a change of a thread by other code. -/
inductive ReadyCall where
  | add (t : Nat)
  | del (t : Nat)
  | next
  | change (t : Nat) (thr : Thread)
deriving Repr, DecidableEq

namespace ReadyHistory

/-- `sched_thread_add`: a thread whose last reference is gone is not added. -/
def add (hist : ReadyHistory) (t : Nat) : Option ReadyHistory :=
  match hist.sys.threads t, hist.sys.schedThreadAdd t with
  | some thr, some sys =>
      some ⟨sys, if thr.referable then hist.log ++ [.added t] else hist.log⟩
  | _, _ => none

/-- `sched_thread_del`: a thread that does not wait is not deleted. -/
def del (hist : ReadyHistory) (t : Nat) : Option ReadyHistory :=
  match hist.sys.threads t, hist.sys.schedThreadDel t with
  | some thr, some sys =>
      some ⟨sys,
        if t ∈ hist.sys.que thr.curPrio then hist.log ++ [.deleted t]
        else hist.log⟩
  | _, _ => none

/-- `get_next_thread`. -/
def next (hist : ReadyHistory) : Option ReadyHistory :=
  match hist.sys.getNextThread with
  | none => none
  | some (none, sys) => some ⟨sys, hist.log⟩
  | some (some t, sys) => some ⟨sys, hist.log ++ [.returned t]⟩

/--
A thread is made, runs, blocks and ends.  One that is on the ready queue can
run and keeps its priority.
-/
def change
    (hist : ReadyHistory)
    (t : Nat)
    (thr : Thread) : Option ReadyHistory :=
  if thr.curPrio < schedPrioNr ∧
      (t ∈ waitingIn hist.log →
        thr.state = .runable ∧ some thr.curPrio = hist.sys.curPrio t) then
    some ⟨hist.sys.setThread t thr, hist.log⟩
  else
    none

end ReadyHistory

/-- One step. -/
def readyNext (hist : ReadyHistory) : ReadyCall → Option ReadyHistory
  | .add t => hist.add t
  | .del t => hist.del t
  | .next => hist.next
  | .change t thr => hist.change t thr

/-- No thread waits at the start. -/
def readyInit (idleThreads : List Nat) : ReadyHistory :=
  ⟨schedInit idleThreads, []⟩

/--
A thread of the highest priority among those that wait, of which it has waited
the longest.
-/
def System.LongestWaiting
    (sys : System)
    (waiting : List Nat)
    (t : Nat) : Prop :=
  ∃ before later prio,
    waiting = before ++ t :: later ∧
      sys.curPrio t = some prio ∧
      (∀ other ∈ waiting, ∃ otherPrio,
        sys.curPrio other = some otherPrio ∧ prio ≤ otherPrio) ∧
      ∀ other ∈ before, sys.curPrio other ≠ some prio

/--
The bitmap tells which queues are empty, the next thread is the one that comes
first, and no thread is taken from the queues more often than it was added.
-/
structure ReadyServed (hist : ReadyHistory) : Prop where
  bits : ∀ prio,
    isset hist.sys.bitmap prio = true ↔ hist.sys.que prio ≠ []
  queued : ∀ prio t,
    t ∈ hist.sys.que prio ↔
      t ∈ waitingIn hist.log ∧ hist.sys.curPrio t = some prio
  next : ∃ picked after,
    hist.sys.getNextThread = some (picked, after) ∧
      (picked = none ↔ waitingIn hist.log = []) ∧
      ∀ t, picked = some t →
        hist.sys.LongestWaiting (waitingIn hist.log) t
  once : ∀ t,
    hist.log.count (.deleted t) + hist.log.count (.returned t) ≤
      hist.log.count (.added t)

/-! ## The bitmap -/

/-- The bit of a priority is set when its queue is not empty. -/
structure BitsRight
    (que : Nat → List Nat)
    (map : Bitmap) : Prop where
  width : schedPrioNr ≤ 64 * map.length
  bits : ∀ prio, isset map prio = true ↔ que prio ≠ []

namespace BitsRight

variable {que : Nat → List Nat}
variable {map : Bitmap}
variable {prio t : Nat}

/-- The bit is set with the first thread of a queue. -/
theorem push
    (right : BitsRight que map)
    (small : prio < schedPrioNr) :
    BitsRight (Function.update que prio (que prio ++ [t]))
      (if que prio = [] then bitopsSet prio map else map) := by
  have inMap : prio < 64 * map.length :=
    Nat.lt_of_lt_of_le small right.width
  constructor
  · split
    · rw [bitopsSet_length]
      exact right.width
    · exact right.width
  · intro other
    by_cases same : other = prio
    · subst same
      rw [Function.update_self]
      refine iff_of_true ?_ (List.append_ne_nil_of_right_ne_nil _ nofun)
      split
      case isTrue => simp [isset_bitopsSet inMap]
      case isFalse nonempty => exact (right.bits other).mpr nonempty
    · rw [Function.update_of_ne same, ← right.bits other]
      split
      case isTrue =>
        rw [isset_bitopsSet inMap, decide_eq_false same, Bool.false_or]
      case isFalse => exact Iff.rfl

/-- The bit is cleared with the last thread of a queue. -/
theorem shrink
    {rest : List Nat}
    (right : BitsRight que map)
    (small : prio < 64 * map.length)
    (smaller : rest ≠ [] → que prio ≠ []) :
    BitsRight (Function.update que prio rest)
      (if rest = [] then bitopsClr prio map else map) := by
  constructor
  · split
    · rw [bitopsClr_length]
      exact right.width
    · exact right.width
  · intro other
    by_cases same : other = prio
    · subst same
      rw [Function.update_self]
      split
      case isTrue last => simp [isset_bitopsClr small, last]
      case isFalse more =>
        exact iff_of_true ((right.bits other).mpr (smaller more)) more
    · rw [Function.update_of_ne same, ← right.bits other]
      split
      case isTrue => simp [isset_bitopsClr small, same]
      case isFalse => exact Iff.rfl

end BitsRight

/-! ## The invariant -/

/-- The queues are those of the threads that wait, in their order. -/
structure ReadySound (hist : ReadyHistory) : Prop where
  right : BitsRight hist.sys.que hist.sys.bitmap
  prio : ∀ t thr, hist.sys.threads t = some thr → thr.curPrio < schedPrioNr
  linked : ∀ t ∈ waitingIn hist.log,
    ∃ thr, hist.sys.threads t = some thr ∧ thr.state = .runable
  fifo : ∀ prio,
    hist.sys.que prio =
      (waitingIn hist.log).filter fun t => hist.sys.curPrio t = some prio
  nodup : (waitingIn hist.log).Nodup
  balance : ∀ t,
    hist.log.count (.deleted t) + hist.log.count (.returned t) +
        (waitingIn hist.log).count t =
      hist.log.count (.added t)

/-- The last event of a log comes after the others. -/
theorem waitingIn_append
    (log : List ReadyEvent)
    (event : ReadyEvent) :
    waitingIn (log ++ [event]) = waitAfter (waitingIn log) event :=
  List.foldl_concat ..

namespace ReadySound

variable {hist after : ReadyHistory}
variable {t prio : Nat}
variable {thr : Thread}

/-- A queue holds the threads of its priority that wait. -/
theorem mem_que
    (sound : ReadySound hist) :
    t ∈ hist.sys.que prio ↔
      t ∈ waitingIn hist.log ∧ hist.sys.curPrio t = some prio := by
  rw [sound.fifo, List.mem_filter, decide_eq_true_eq]

/-- A thread waits in the queue of its own priority. -/
theorem mem_own
    (sound : ReadySound hist)
    (found : hist.sys.threads t = some thr) :
    t ∈ hist.sys.que thr.curPrio ↔ t ∈ waitingIn hist.log := by
  rw [sound.mem_que, System.curPrio, found, Option.map_some]
  exact and_iff_left rfl

/-- Nothing waits at the start. -/
theorem initial
    (idleThreads : List Nat) :
    ReadySound (readyInit idleThreads) := by
  constructor
  case right =>
    refine ⟨(by decide : schedPrioNr ≤ 64 * (bitopsZero schedPrioNr).length),
      fun prio => ?_⟩
    exact iff_of_false (by simp [readyInit, schedInit, isset_bitopsZero])
      (by simp [readyInit, schedInit])
  case prio =>
    intro t thr found
    simp only [readyInit, schedInit] at found
    split at found <;> cases found
    decide
  case linked => exact nofun
  case fifo => exact fun _ => rfl
  case nodup => exact List.nodup_nil
  case balance => exact fun _ => rfl

/-- A thread is taken out of its queue. -/
theorem remove
    (sound : ReadySound hist)
    (found : hist.sys.threads t = some thr)
    (there : t ∈ hist.sys.que thr.curPrio)
    {event : ReadyEvent}
    (removes : event = .deleted t ∨ event = .returned t) :
    ReadySound
      ⟨{ hist.sys with
          que := Function.update hist.sys.que thr.curPrio
            ((hist.sys.que thr.curPrio).erase t)
          bitmap :=
            if (hist.sys.que thr.curPrio).erase t = [] then
              bitopsClr thr.curPrio hist.sys.bitmap
            else hist.sys.bitmap },
        hist.log ++ [event]⟩ := by
  have small := sound.prio t thr found
  have waits := (sound.mem_own found).mp there
  have left : waitingIn (hist.log ++ [event]) =
      (waitingIn hist.log).erase t := by
    rw [waitingIn_append]
    rcases removes with rfl | rfl <;> rfl
  constructor
  case right =>
    exact sound.right.shrink (Nat.lt_of_lt_of_le small sound.right.width)
      fun _ => List.ne_nil_of_mem there
  case prio => exact sound.prio
  case linked =>
    intro other member
    simp only [left] at member
    exact sound.linked other (List.mem_of_mem_erase member)
  case fifo =>
    intro other
    simp only [left]
    change Function.update hist.sys.que thr.curPrio _ other =
      ((waitingIn hist.log).erase t).filter fun t =>
        hist.sys.curPrio t = some other
    by_cases same : other = thr.curPrio
    · rw [same, Function.update_self, sound.fifo, List.erase_filter]
    · have elsewhere : t ∉ hist.sys.que other := by
        intro member
        have own := (sound.mem_que.mp member).2
        rw [(sound.mem_que.mp there).2, Option.some.injEq] at own
        exact same own.symm
      rw [Function.update_of_ne same, ← List.erase_filter, ← sound.fifo,
        List.erase_of_not_mem elsewhere]
  case nodup =>
    simp only [left]
    exact sound.nodup.erase t
  case balance =>
    intro other
    have before := sound.balance other
    simp only [left, List.count_append]
    by_cases same : other = t
    · subst same
      have once := List.count_eq_one_of_mem sound.nodup waits
      rw [List.count_erase_self]
      rcases removes with rfl | rfl <;> simp <;> omega
    · rw [List.count_erase_of_ne same]
      have different : t ≠ other :=
        fun eq => same eq.symm
      rcases removes with rfl | rfl <;> simp [different] <;> omega

/-- A thread is added behind those of its priority. -/
theorem add
    (sound : ReadySound hist)
    (added : hist.add t = some after) :
    ReadySound after := by
  rw [ReadyHistory.add] at added
  split at added
  case h_2 => cases added
  case h_1 thr sys found called =>
    cases added
    simp only [System.schedThreadAdd, found] at called
    by_cases gone : thr.referable = false
    · rw [if_pos gone] at called
      cases called
      rw [if_neg (by simp [gone])]
      exact sound
    rw [if_neg gone] at called
    split at called
    case isTrue => cases called
    case isFalse free =>
      cases called
      rw [not_or, not_not] at free
      obtain ⟨notThere, runable⟩ := free
      have notWaiting : t ∉ waitingIn hist.log :=
        (sound.mem_own found).not.mp notThere
      have more : waitingIn (hist.log ++ [.added t]) =
          waitingIn hist.log ++ [t] :=
        waitingIn_append hist.log (.added t)
      rw [if_pos (Bool.eq_true_of_not_eq_false gone)]
      constructor
      case right => exact sound.right.push (sound.prio t thr found)
      case prio => exact sound.prio
      case linked =>
        intro other member
        simp only [more, List.mem_append, List.mem_singleton] at member
        rcases member with waits | rfl
        · exact sound.linked other waits
        · exact ⟨thr, found, runable⟩
      case fifo =>
        intro prio
        simp only [more, List.filter_append]
        change Function.update hist.sys.que thr.curPrio _ prio = _ ++
          List.filter (fun t => decide (hist.sys.curPrio t = some prio)) [t]
        by_cases same : prio = thr.curPrio
        · rw [same, Function.update_self, sound.fifo]
          simp [System.curPrio, found]
        · rw [Function.update_of_ne same, sound.fifo]
          have different : thr.curPrio ≠ prio :=
            fun eq => same eq.symm
          simp [System.curPrio, found, different]
      case nodup =>
        simp only [more]
        exact List.Nodup.append sound.nodup (List.nodup_singleton t)
          (List.disjoint_singleton.mpr notWaiting)
      case balance =>
        intro other
        have before := sound.balance other
        simp only [more, List.count_append]
        by_cases same : t = other
        · subst same
          simp
          omega
        · simp [same]
          omega

/-- A thread that waits is deleted, and no other. -/
theorem del
    (sound : ReadySound hist)
    (deleted : hist.del t = some after) :
    ReadySound after := by
  rw [ReadyHistory.del] at deleted
  split at deleted
  case h_2 => cases deleted
  case h_1 thr sys found called =>
    cases deleted
    simp only [System.schedThreadDel, found, Option.some.injEq] at called
    subst called
    by_cases there : t ∈ hist.sys.que thr.curPrio
    · rw [if_pos there]
      exact sound.remove found there (.inl rfl)
    · have kept := List.erase_of_not_mem there
      have small := Nat.lt_of_lt_of_le (sound.prio t thr found) sound.right.width
      have right := sound.right.shrink small
        (id : hist.sys.que thr.curPrio ≠ [] → _)
      rw [if_neg there, kept]
      rw [Function.update_eq_self] at right ⊢
      exact { sound with right }

/-- The next thread is the first one of the first queue that is not empty. -/
theorem getNextThread_eq
    (sound : ReadySound hist) :
    (hist.sys.getNextThread = some (none, hist.sys) ∧
        waitingIn hist.log = []) ∨
      ∃ t thr rest, hist.sys.threads t = some thr ∧
        hist.sys.que thr.curPrio = t :: rest ∧
        (∀ prio < thr.curPrio, hist.sys.que prio = []) ∧
        hist.sys.getNextThread =
          some (some t,
            { hist.sys with
              que := Function.update hist.sys.que thr.curPrio rest
              bitmap :=
                if rest = [] then bitopsClr thr.curPrio hist.sys.bitmap
                else hist.sys.bitmap }) := by
  rw [System.getNextThread]
  rcases bitopsFfs_eq hist.sys.bitmap with
    ⟨none, clear⟩ | ⟨idx, inMap, place, set⟩
  · refine .inl ⟨by rw [none], List.eq_nil_iff_forall_not_mem.mpr ?_⟩
    intro t waits
    obtain ⟨thr, found, -⟩ := sound.linked t waits
    have set := (sound.right.bits thr.curPrio).mpr
      (List.ne_nil_of_mem ((sound.mem_own found).mpr waits))
    rw [clear _ (Nat.lt_of_lt_of_le (sound.prio t thr found)
      sound.right.width)] at set
    cases set
  · obtain ⟨t, rest, queue⟩ :=
      List.exists_cons_of_ne_nil ((sound.right.bits idx).mp set)
    have member : t ∈ hist.sys.que idx :=
      queue ▸ List.mem_cons_self
    obtain ⟨waits, own⟩ := sound.mem_que.mp member
    obtain ⟨thr, found, runable⟩ := sound.linked t waits
    rw [System.curPrio, found, Option.map_some, Option.some.injEq] at own
    subst own
    refine .inr ⟨t, thr, rest, found, queue, fun prio before => ?_, ?_⟩
    · have clear := ffsFrom_before (i := 0) (by simpa [bitopsFfs] using place)
        prio before
      by_contra nonempty
      rw [(sound.right.bits prio).mpr nonempty] at clear
      cases clear
    · simp only [place, queue, found, runable, if_true]

/-- The next thread leaves the queues. -/
theorem next
    (sound : ReadySound hist)
    (picked : hist.next = some after) :
    ReadySound after := by
  rw [ReadyHistory.next] at picked
  rcases sound.getNextThread_eq with
    ⟨got, -⟩ | ⟨t, thr, rest, found, queue, -, got⟩
  · rw [got] at picked
    cases picked
    exact sound
  · rw [got] at picked
    cases picked
    have removed := sound.remove found (queue ▸ List.mem_cons_self)
      (.inr rfl : ReadyEvent.returned t = .deleted t ∨ _)
    rw [queue, List.erase_cons_head] at removed
    exact removed

/-- A change of a thread leaves the queues as they are. -/
theorem change
    (sound : ReadySound hist)
    (changed : hist.change t thr = some after) :
    ReadySound after := by
  rw [ReadyHistory.change] at changed
  split at changed
  case isFalse => cases changed
  case isTrue meets =>
    cases changed
    obtain ⟨small, keeps⟩ := meets
    have samePrio : ∀ other ∈ waitingIn hist.log,
        (hist.sys.setThread t thr).curPrio other = hist.sys.curPrio other := by
      intro other waits
      by_cases same : other = t
      · subst same
        rw [← (keeps waits).2]
        simp [System.curPrio, System.setThread]
      · simp [System.curPrio, System.setThread, same]
    constructor
    case right => exact sound.right
    case prio =>
      intro other otherThr found
      by_cases same : other = t
      · subst same
        simp only [System.setThread, Function.update_self,
          Option.some.injEq] at found
        exact found ▸ small
      · simp only [System.setThread, Function.update_of_ne same] at found
        exact sound.prio other otherThr found
    case linked =>
      intro other waits
      by_cases same : other = t
      · subst same
        exact ⟨thr, Function.update_self .., (keeps waits).1⟩
      · obtain ⟨otherThr, found, runable⟩ := sound.linked other waits
        exact ⟨otherThr, (Function.update_of_ne same ..).trans found, runable⟩
    case fifo =>
      intro prio
      refine (sound.fifo prio).trans (List.filter_congr fun other waits => ?_)
      rw [samePrio other waits]
    case nodup => exact sound.nodup
    case balance => exact sound.balance

/-- Every call keeps the invariant. -/
theorem step
    {call : ReadyCall}
    (sound : ReadySound hist)
    (stepped : StepOf readyNext hist call after) :
    ReadySound after := by
  cases call with
  | add t => exact sound.add stepped
  | del t => exact sound.del stepped
  | next => exact sound.next stepped
  | change t thr => exact sound.change stepped

/-- The thread that comes next has waited the longest. -/
theorem longestWaiting
    (sound : ReadySound hist)
    {rest : List Nat}
    (found : hist.sys.threads t = some thr)
    (queue : hist.sys.que thr.curPrio = t :: rest)
    (empty : ∀ prio < thr.curPrio, hist.sys.que prio = []) :
    hist.sys.LongestWaiting (waitingIn hist.log) t := by
  have own : hist.sys.curPrio t = some thr.curPrio := by
    rw [System.curPrio, found, Option.map_some]
  have first := sound.fifo thr.curPrio
  rw [queue] at first
  obtain ⟨before, later, split, passed, -, -⟩ :=
    List.filter_eq_cons_iff.mp first.symm
  refine ⟨before, later, thr.curPrio, split, own, ?_, ?_⟩
  · intro other waits
    obtain ⟨otherThr, otherFound, -⟩ := sound.linked other waits
    refine ⟨otherThr.curPrio, ?_, ?_⟩
    · rw [System.curPrio, otherFound, Option.map_some]
    · by_contra lower
      have none := empty otherThr.curPrio (Nat.not_le.mp lower)
      have member := (sound.mem_own otherFound).mpr waits
      rw [none] at member
      cases member
  · intro other member
    simpa using passed other member

/-- The queues serve the threads in order. -/
theorem served
    (sound : ReadySound hist) :
    ReadyServed hist := by
  constructor
  case bits => exact sound.right.bits
  case queued => exact fun _ _ => sound.mem_que
  case next =>
    rcases sound.getNextThread_eq with
      ⟨got, empty⟩ | ⟨t, thr, rest, found, queue, first, got⟩
    · exact ⟨none, hist.sys, got, iff_of_true rfl empty, nofun⟩
    · have waits : t ∈ waitingIn hist.log :=
        (sound.mem_own found).mp (queue ▸ List.mem_cons_self)
      refine ⟨some t, _, got,
        iff_of_false nofun (List.ne_nil_of_mem waits), ?_⟩
      rintro _ ⟨⟩
      exact sound.longestWaiting found queue first
  case once =>
    intro t
    have balance := sound.balance t
    omega

end ReadySound

/--
In every run of additions, deletions and picks, with any changes of the threads
in between, the bitmap is right and the threads are served in order.
-/
theorem readyQueue_served
    {idleThreads : List Nat}
    {calls : List ReadyCall}
    {hist : ReadyHistory}
    (run : Run (StepOf readyNext) (readyInit idleThreads) calls hist) :
    ReadyServed hist :=
  (run.invariant (ReadySound.initial idleThreads)
    fun sound stepped => sound.step stepped).served

/-- Four threads of two priorities, of which the urgent one is deleted. -/
def fourThreads : List ReadyCall :=
  [.change 1 (newThread 130), .change 2 (newThread 65),
    .change 3 (newThread 130), .change 4 (newThread 65), .add 1, .add 2, .add 3,
    .add 4, .del 2, .next, .next]

theorem readyQueue_served_fourThreads :
    ∃ hist,
      execute readyNext (readyInit [0]) fourThreads = some hist ∧
        hist.log =
          [.added 1, .added 2, .added 3, .added 4, .deleted 2, .returned 4,
            .returned 1] ∧
        ReadyServed hist := by
  obtain ⟨hist, executed⟩ : ∃ hist,
      execute readyNext (readyInit [0]) fourThreads = some hist :=
    Option.isSome_iff_exists.mp (by decide +kernel)
  have log :
      (execute readyNext (readyInit [0]) fourThreads).map (·.log) =
        some [.added 1, .added 2, .added 3, .added 4, .deleted 2, .returned 4,
          .returned 1] := by
    decide +kernel
  rw [executed, Option.map_some, Option.some.injEq] at log
  exact ⟨hist, executed, log, readyQueue_served (Run.of_execute executed)⟩

end RiscvWorkshop.Sched
