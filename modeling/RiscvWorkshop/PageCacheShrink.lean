import Mathlib
import RiscvWorkshop.PageCacheSteps

namespace RiscvWorkshop.PageCache

/-!
# The shrinker of the page cache

`pagecache_shrink_pages` walks along the LRU queue with a saved next entry,
takes the first page of the queue in every round and drops the lock of the pool
while it works on the page.  Whenever it takes the lock again it finds the pool
as the other threads have left it.
-/

/-- What the shrinker does to the lock and to the queue. -/
inductive ShrinkEvent where
  /-- the lock is taken, and whether the shrinker held it before -/
  | lock (held : Bool)
  /-- the lock is released, and whether the shrinker held it -/
  | unlock (held : Bool)
  /-- the queue is read, and whether the shrinker holds the lock -/
  | access (held : Bool)
  /-- an entry is taken from the queue; `none` is the queue itself -/
  | take (frame : Option Nat)
  | free (frame : Nat)
deriving Repr, DecidableEq

/-- The locals of a call, what it did, and where it let other threads in. -/
structure Shrinker where
  pool : Pool
  locked : Bool
  lp : Option Nat
  np : Option Nat
  freeNr : Nat
  log : List ShrinkEvent
  windows : List (Pool × Pool)

/-- The pools that a round finds when it takes the lock again. -/
structure ShrinkRound where
  /-- after the page was written back -/
  written : Pool
  /-- after its waiters were looked at -/
  checked : Pool
  /-- at the end of the round -/
  released : Pool

/-- How a round ends. -/
inductive ShrinkStep where
  | stopped (state : Shrinker)
  | returned (state : Shrinker)
  | next (state : Shrinker)

/-- The state in which a round ends. -/
def ShrinkStep.state : ShrinkStep → Shrinker
  | stopped state => state
  | returned state => state
  | next state => state

namespace Shrinker

variable (state : Shrinker)

def note (event : ShrinkEvent) : Shrinker :=
  { state with log := event :: state.log }

/-- The pool after a section of the shrinker. -/
def setPool (pool : Pool) : Shrinker :=
  { state with pool }

/-- A page was freed. -/
def countFree (frame : Nat) : Shrinker :=
  { state with
    freeNr := state.freeNr + 1
    log := .free frame :: state.log }

/-- `spinlock_lock` of the pool, which the other threads have left as it is found. -/
def lock (found : Pool) : Shrinker :=
  { state with
    pool := found
    locked := true
    log := .lock state.locked :: state.log
    windows := (state.pool, found) :: state.windows }

/-- `spinlock_unlock` of the pool. -/
def unlock : Shrinker :=
  { state with
    locked := false
    log := .unlock state.locked :: state.log }

/-- The end of a round of `queue_for_each_safe`. -/
def advance : Shrinker :=
  { state with
    lp := state.np
    np := lruNext state.pool.lru state.np
    log := .access state.locked :: state.log }

/-- `queue_get_top`, and what the round does before it releases the lock. -/
def getTop (self : Nat) : Except Shrinker (Nat × Shrinker) :=
  match state.pool.lru with
  | [] => .error ((state.note (.access state.locked)).note (.take none))
  | frame :: _ =>
      let state :=
        (state.note (.access state.locked)).note (.take (some frame))
      match state.pool.shrinkTake self with
      | none => .error state
      | some (_, pool) => .ok (frame, state.setPool pool)

end Shrinker

/-- A round tries to free its page, and goes on if it may free more. -/
def shrinkFree
    (self max : Nat)
    (round : ShrinkRound)
    (frame : Nat)
    (state : Shrinker) : ShrinkStep :=
  let state := state.lock round.checked
  match state.pool.decPcacheReference self frame with
  | none => .stopped state
  | some (false, pool) =>
      .next ((state.setPool pool).unlock.lock round.released).advance
  | some (true, pool) =>
      let state := ((state.setPool pool).countFree frame).unlock
      if state.freeNr = max then
        .returned state
      else
        .next (state.lock round.released).advance

/-- A round that may free its page looks whether somebody waits for it. -/
def shrinkRelease
    (self max : Nat)
    (round : ShrinkRound)
    (frame : Nat)
    (state : Shrinker) : ShrinkStep :=
  match state.pool.shrinkDrop self frame with
  | none => .stopped state
  | some pool =>
      let state := (state.setPool pool).lock round.written
      match state.pool.shrinkCheck self frame with
      | none => .stopped state
      | some (true, pool) =>
          -- the round goes on without the lock
          .next (state.setPool pool).unlock.advance
      | some (false, pool) =>
          shrinkFree self max round frame (state.setPool pool).unlock

/-- One round of `pagecache_shrink_pages`. -/
def shrinkRound
    (self max : Nat)
    (wbonly : Bool)
    (round : ShrinkRound)
    (state : Shrinker) : ShrinkStep :=
  match state.getTop self with
  | .error state => .stopped state
  | .ok (frame, state) =>
      if state.locked = false then
        -- the lock is released by a thread that does not hold it
        .stopped state.unlock
      else
        let state := state.unlock
        match state.pool.shrinkWrite self frame with
        | none => .stopped state
        | some pool =>
            let state := state.setPool pool
            if wbonly then
              .next (state.lock round.written).advance
            else
              shrinkRelease self max round frame state

/--
The loop of `pagecache_shrink_pages`, with the number that it reports.  A call
that stops reports nothing, and one that is still running has no result.
-/
def shrinkLoop
    (self max : Nat)
    (wbonly : Bool)
    (rounds : List ShrinkRound)
    (state : Shrinker) : Option (Option Nat × Shrinker) :=
  match state.lp, rounds with
  | none, _ => some (some state.freeNr, state)
  | some _, [] => none
  | some _, round :: rounds =>
      match shrinkRound self max wbonly round state with
      | .stopped state => some (none, state)
      | .returned state => some (some state.freeNr, state)
      | .next state => shrinkLoop self max wbonly rounds state

/-- The loop begins: the lock is taken, and the first two entries are read. -/
def shrinkStart (pool : Pool) : Shrinker where
  pool := pool
  locked := true
  lp := lruNext pool.lru none
  np := lruNext pool.lru (lruNext pool.lru none)
  freeNr := 0
  log := [.access true, .lock false]
  windows := []

/-- `pagecache_shrink_pages`. -/
def pagecacheShrinkPages
    (self max : Nat)
    (wbonly : Bool)
    (rounds : List ShrinkRound)
    (pool : Pool) : Option (Option Nat × Shrinker) :=
  shrinkLoop self max wbonly rounds (shrinkStart pool)

/-! ## What a call must keep to -/

/-- The frames that were freed, last first. -/
def Shrinker.freed (state : Shrinker) : List Nat :=
  state.log.filterMap fun event =>
    match event with
    | .free frame => some frame
    | _ => none

/-- The lock is taken and released in pairs, and the queue is used under it. -/
def ShrinkEvent.Fine : ShrinkEvent → Prop
  | .lock held => held = false
  | .unlock held => held = true
  | .access held => held = true
  | .take frame => frame ≠ none
  | .free _ => True

/-- What `pagecache_shrink_pages` is to do. -/
structure ShrinkRight
    (thread max : Nat)
    (wbonly : Bool)
    (result : Option Nat)
    (final : Shrinker) : Prop where
  events : ∀ event ∈ final.log, event.Fine
  lockFree : final.locked = false
  reported : result = some final.freed.length
  bounded : final.freed.length ≤ max
  noneFreed : wbonly = true → final.freed = []
  available :
    wbonly = true →
      ∀ frame, ShrinkEvent.take (some frame) ∈ final.log →
        frame ∈ final.pool.tree ∧
          ∃ pc, final.pool.pages frame = some pc ∧ pc.busy ≠ some thread

/-- Nobody waits for a page. -/
def Pool.noWaiters
    (pool : Pool)
    (frame : Nat) : Bool :=
  (pool.pages frame).all fun pc => pc.waiters.isEmpty

/--
The walk along the saved entries comes to the last of `max` pages.  In every
round it has not come to the end of the queue, there is a page on the queue, and
nobody waits for it after it was written back; it is freed if nobody waits
for it a moment later.
-/
inductive ReachesMax
    (max : Nat) :
    Nat → Option Nat → Option Nat → Pool → List ShrinkRound → Prop where
  | last
      {done node frame : Nat}
      {np : Option Nat}
      {pool : Pool}
      {rest : List Nat}
      {round : ShrinkRound}
      {rounds : List ShrinkRound}
      (queued : pool.lru = frame :: rest)
      (nobody : round.written.noWaiters frame = true)
      (still : round.checked.noWaiters frame = true)
      (enough : done + 1 = max) :
      ReachesMax max done (some node) np pool (round :: rounds)
  | freed
      {done node frame : Nat}
      {np : Option Nat}
      {pool : Pool}
      {rest : List Nat}
      {round : ShrinkRound}
      {rounds : List ShrinkRound}
      (queued : pool.lru = frame :: rest)
      (nobody : round.written.noWaiters frame = true)
      (still : round.checked.noWaiters frame = true)
      (more : done + 1 ≠ max)
      (later :
        ReachesMax max (done + 1) np (lruNext round.released.lru np)
          round.released rounds) :
      ReachesMax max done (some node) np pool (round :: rounds)
  | kept
      {done node frame : Nat}
      {np : Option Nat}
      {pool : Pool}
      {rest : List Nat}
      {round : ShrinkRound}
      {rounds : List ShrinkRound}
      (queued : pool.lru = frame :: rest)
      (nobody : round.written.noWaiters frame = true)
      (waiting : round.checked.noWaiters frame = false)
      (later :
        ReachesMax max done np (lruNext round.released.lru np) round.released
          rounds) :
      ReachesMax max done (some node) np pool (round :: rounds)

/-- A walk that does not end has a page on the queue. -/
theorem ReachesMax.queued
    {max done : Nat}
    {lp np : Option Nat}
    {pool : Pool}
    {rounds : List ShrinkRound}
    (reaches : ReachesMax max done lp np pool rounds) :
    ∃ frame rest, pool.lru = frame :: rest := by
  cases reaches with
  | last queued => exact ⟨_, _, queued⟩
  | freed queued => exact ⟨_, _, queued⟩
  | kept queued => exact ⟨_, _, queued⟩

/-- The walk goes on at the first page of the queue. -/
theorem ReachesMax.iff_of_queued
    {max done node frame : Nat}
    {np : Option Nat}
    {pool : Pool}
    {rest : List Nat}
    {round : ShrinkRound}
    {rounds : List ShrinkRound}
    (queued : pool.lru = frame :: rest) :
    ReachesMax max done (some node) np pool (round :: rounds) ↔
      round.written.noWaiters frame = true ∧
        ((round.checked.noWaiters frame = true ∧ done + 1 = max) ∨
          (round.checked.noWaiters frame = true ∧ done + 1 ≠ max ∧
            ReachesMax max (done + 1) np (lruNext round.released.lru np)
              round.released rounds) ∨
          (round.checked.noWaiters frame = false ∧
            ReachesMax max done np (lruNext round.released.lru np)
              round.released rounds)) := by
  constructor
  · intro reaches
    cases reaches with
    | last same nobody still enough =>
        rw [queued] at same
        cases same
        exact ⟨nobody, .inl ⟨still, enough⟩⟩
    | freed same nobody still more later =>
        rw [queued] at same
        cases same
        exact ⟨nobody, .inr (.inl ⟨still, more, later⟩)⟩
    | kept same nobody waiting later =>
        rw [queued] at same
        cases same
        exact ⟨nobody, .inr (.inr ⟨waiting, later⟩)⟩
  · rintro ⟨nobody, ⟨still, enough⟩ | ⟨still, more, later⟩ | ⟨waiting, later⟩⟩
    · exact .last queued nobody still enough
    · exact .freed queued nobody still more later
    · exact .kept queued nobody waiting later

section Sections

variable {self frame max : Nat}
variable {pool found after : Pool}
variable {pc : PCache}

/-- A page is BUSY by a thread if it says so. -/
theorem Pool.ownPage_of_pages
    (page : pool.pages frame = some pc)
    (busy : pc.busy = some self) :
    pool.ownPage self frame = some pc := by
  rw [Pool.ownPage, page, Option.filter_some, if_pos (decide_eq_true busy)]

/-- The page of a thread as the others have left it. -/
theorem ByOthers.ownPage
    (others : ByOthers self pool found)
    (sound : PoolSound pool)
    (own : pool.ownPage self frame = some pc) :
    ∃ waiters,
      found.ownPage self frame = some { pc with waiters } ∧
        found.noWaiters frame = waiters.isEmpty := by
  obtain ⟨page, busy⟩ := Pool.ownPage_eq_some own
  obtain ⟨waiters, kept⟩ := (sound.byOthers others).2 frame pc page busy
  refine ⟨waiters, Pool.ownPage_of_pages kept busy, ?_⟩
  rw [Pool.noWaiters, kept]
  rfl

/-- The first page of the queue becomes the shrinker's. -/
theorem PoolSound.shrinkTake_own
    {rest : List Nat}
    (self : Nat)
    (sound : PoolSound pool)
    (queued : pool.lru = frame :: rest) :
    ∃ pc after,
      pool.shrinkTake self = some (frame, after) ∧
        after.ownPage self frame = some pc ∧ pc.refs = 2 := by
  obtain ⟨pc, _, _, count, taken⟩ := sound.shrinkTake_eq self queued
  exact
    ⟨{ pc with busy := some self }, _, taken,
      Pool.ownPage_of_pages (Function.update_self ..) rfl, count⟩

/-- A page that is written back is clean. -/
theorem PoolSound.shrinkWrite_eq
    (sound : PoolSound pool)
    (own : pool.ownPage self frame = some pc) :
    ∃ after,
      pool.shrinkWrite self frame = some after ∧
        after.ownPage self frame =
          some { pc with clean := true, dirty := false } := by
  obtain ⟨page, busy⟩ := Pool.ownPage_eq_some own
  have valid := (sound.pages frame pc page).valid
  cases dirty : pc.dirty with
  | true =>
      refine
        ⟨pool.setPage frame { pc with clean := true, dirty := false }, ?_,
          Pool.ownPage_of_pages (Pool.setPage_self ..) busy⟩
      simp [Pool.shrinkWrite, own, dirty, Pool.pagecacheWrite]
  | false =>
      refine ⟨pool, ?_, ?_⟩
      · simp [Pool.shrinkWrite, own, dirty]
      · rw [own, ← dirty, ← show pc.clean = true by rw [valid, dirty]; rfl]

theorem Pool.shrinkDrop_eq
    (own : pool.ownPage self frame = some pc)
    (count : pc.refs = 2)
    (clean : pc.clean = true) :
    pool.shrinkDrop self frame =
      some (pool.setPage frame { pc with refs := 1 }) := by
  simp [Pool.shrinkDrop, own, count, clean]

/-- A page that is dropped is freed, unless somebody waits for it. -/
theorem PoolSound.decPcacheReference_eq
    (sound : PoolSound pool)
    (own : pool.ownPage self frame = some pc)
    (count : pc.refs = 1)
    (clean : pc.clean = true) :
    pool.decPcacheReference self frame =
      if pc.waiters = [] then
        some (true, pool.removePage frame)
      else
        some (false, pool.setPage frame { pc with refs := 1 }) := by
  have registered :=
    (sound.pages frame pc (Pool.ownPage_eq_some own).1).registered
  rw [Pool.decPcacheReference, own]
  simp only [count, clean, registered]
  by_cases nobody : pc.waiters = []
  · simp [nobody]
  · simp [nobody]

end Sections

/-! ## What was done stays done -/

/-- Nothing that was done or let in is forgotten. -/
structure Grows (before after : Shrinker) : Prop where
  log : before.log ⊆ after.log
  windows : before.windows ⊆ after.windows

namespace Grows

variable {first second third : Shrinker}

theorem refl (state : Shrinker) : Grows state state where
  log := fun _ member => member
  windows := fun _ member => member

theorem trans
    (earlier : Grows first second)
    (later : Grows second third) :
    Grows first third where
  log := fun _ member => later.log (earlier.log member)
  windows := fun _ member => later.windows (earlier.windows member)

/-- A state that adds an event and no window. -/
theorem of_event
    {event : ShrinkEvent}
    (log : second.log = event :: first.log)
    (windows : second.windows = first.windows) :
    Grows first second where
  log := fun _ member => log ▸ List.mem_cons_of_mem event member
  windows := fun _ member => windows ▸ member

theorem lock
    (state : Shrinker)
    (found : Pool) :
    Grows state (state.lock found) where
  log := fun _ member => List.mem_cons_of_mem _ member
  windows := fun _ member => List.mem_cons_of_mem _ member

theorem note
    (state : Shrinker)
    (event : ShrinkEvent) :
    Grows state (state.note event) :=
  of_event rfl rfl

theorem unlock (state : Shrinker) : Grows state state.unlock :=
  of_event rfl rfl

theorem advance (state : Shrinker) : Grows state state.advance :=
  of_event rfl rfl

theorem setPool
    (state : Shrinker)
    (pool : Pool) :
    Grows state (state.setPool pool) where
  log := fun _ member => member
  windows := fun _ member => member

theorem countFree
    (state : Shrinker)
    (frame : Nat) :
    Grows state (state.countFree frame) :=
  of_event rfl rfl

/-- The end of a round that takes the lock again. -/
theorem endRound
    (state : Shrinker)
    (found : Pool) :
    Grows state (state.unlock.lock found).advance :=
  (unlock state).trans ((lock state.unlock found).trans (advance _))

end Grows

section Growth

variable {self max frame : Nat}
variable {wbonly : Bool}
variable {round : ShrinkRound}
variable {rounds : List ShrinkRound}
variable {result : Option Nat}
variable {state final : Shrinker}

theorem shrinkFree_grows :
    Grows (state.lock round.checked)
      (shrinkFree self max round frame state).state := by
  rw [shrinkFree]
  dsimp only
  split
  · exact Grows.refl _
  · exact (Grows.setPool _ _).trans (Grows.endRound _ _)
  · have freed := fun pool : Pool =>
      (Grows.setPool (state.lock round.checked) pool).trans
        (Grows.countFree _ frame)
    split
    · exact (freed _).trans (Grows.unlock _)
    · exact (freed _).trans (Grows.endRound _ _)

theorem shrinkRelease_grows
    {dropped : Pool}
    (drop : state.pool.shrinkDrop self frame = some dropped) :
    Grows ((state.setPool dropped).lock round.written)
      (shrinkRelease self max round frame state).state := by
  rw [shrinkRelease, drop]
  dsimp only
  split
  · exact Grows.refl _
  · exact
      (Grows.setPool _ _).trans ((Grows.unlock _).trans (Grows.advance _))
  · exact
      (Grows.setPool _ _).trans
        ((Grows.unlock _).trans ((Grows.lock _ _).trans shrinkFree_grows))

/-- What `queue_get_top` leaves, whether there is a page or not. -/
theorem getTop_grows :
    (∀ stopped, state.getTop self = .error stopped → Grows state stopped) ∧
      ∀ taken, state.getTop self = .ok taken → Grows state taken.2 := by
  have twice := fun first second : ShrinkEvent =>
    (Grows.note state first).trans (Grows.note (state.note first) second)
  rw [Shrinker.getTop]
  constructor
  · intro stopped got
    split at got
    · cases got
      exact twice _ _
    · dsimp only at got
      split at got
      · cases got
        exact twice _ _
      · cases got
  · intro taken got
    split at got
    · cases got
    · dsimp only at got
      split at got
      · cases got
      · cases got
        exact (twice _ _).trans (Grows.setPool _ _)

theorem shrinkRound_grows :
    Grows state (shrinkRound self max wbonly round state).state := by
  rw [shrinkRound]
  split
  case h_1 got =>
    exact getTop_grows.1 _ got
  case h_2 frame taken got =>
    have first : Grows state taken := getTop_grows.2 _ got
    split
    · exact first.trans (Grows.unlock _)
    · dsimp only
      have second := first.trans (Grows.unlock taken)
      split
      · exact second
      case h_2 written _ =>
        have third := second.trans (Grows.setPool _ written)
        split
        · exact third.trans ((Grows.lock _ _).trans (Grows.advance _))
        · refine third.trans ?_
          cases drop : written.shrinkDrop self frame with
          | none =>
              rw [shrinkRelease, Shrinker.setPool, drop]
              exact Grows.refl _
          | some dropped =>
              exact
                (Grows.setPool _ _).trans
                  ((Grows.lock _ _).trans (shrinkRelease_grows drop))

/-- At the end of the queue the number is reported. -/
theorem shrinkLoop_atHead
    (lp : state.lp = none) :
    shrinkLoop self max wbonly rounds state =
      some (some state.freeNr, state) := by
  cases rounds <;> rw [shrinkLoop.eq_def, lp]

theorem shrinkLoop_cons
    {node : Nat}
    (lp : state.lp = some node) :
    shrinkLoop self max wbonly (round :: rounds) state =
      match shrinkRound self max wbonly round state with
      | .stopped state => some (none, state)
      | .returned state => some (some state.freeNr, state)
      | .next state => shrinkLoop self max wbonly rounds state := by
  rw [shrinkLoop.eq_def, lp]

/-- A call that has come to its end is at the end of the queue, or had a round. -/
theorem shrinkLoop_ended
    (ended :
      shrinkLoop self max wbonly rounds state = some (result, final)) :
    (state.lp = none ∧ result = some state.freeNr ∧ final = state) ∨
      ∃ node round later,
        state.lp = some node ∧ rounds = round :: later ∧
          ((∃ stopped,
              shrinkRound self max wbonly round state = .stopped stopped ∧
                result = none ∧ final = stopped) ∨
            (∃ returned,
              shrinkRound self max wbonly round state = .returned returned ∧
                result = some returned.freeNr ∧ final = returned) ∨
            ∃ middle,
              shrinkRound self max wbonly round state = .next middle ∧
                shrinkLoop self max wbonly later middle =
                  some (result, final)) := by
  cases lp : state.lp with
  | none =>
      rw [shrinkLoop_atHead lp] at ended
      cases ended
      exact .inl ⟨rfl, rfl, rfl⟩
  | some node =>
      cases rounds with
      | nil =>
          rw [shrinkLoop.eq_def, lp] at ended
          cases ended
      | cons round later =>
          refine .inr ⟨node, round, later, rfl, rfl, ?_⟩
          rw [shrinkLoop_cons lp] at ended
          cases step : shrinkRound self max wbonly round state with
          | stopped stopped =>
              rw [step] at ended
              cases ended
              exact .inl ⟨_, rfl, rfl, rfl⟩
          | returned returned =>
              rw [step] at ended
              cases ended
              exact .inr (.inl ⟨_, rfl, rfl, rfl⟩)
          | next middle =>
              rw [step] at ended
              exact .inr (.inr ⟨middle, rfl, ended⟩)

/-- A call forgets nothing up to its end. -/
theorem shrinkLoop_grows
    (ended :
      shrinkLoop self max wbonly rounds state = some (result, final)) :
    Grows state final := by
  induction rounds generalizing state with
  | nil =>
      obtain ⟨_, _, rfl⟩ | ⟨_, _, _, _, impossible, _⟩ := shrinkLoop_ended ended
      · exact Grows.refl _
      · cases impossible
  | cons first later inductionHypothesis =>
      have grows :
          Grows state (shrinkRound self max wbonly first state).state :=
        shrinkRound_grows
      obtain ⟨_, _, rfl⟩ | ⟨_, _, _, _, same, step⟩ := shrinkLoop_ended ended
      · exact Grows.refl _
      · cases same
        obtain ⟨_, step, _, rfl⟩ | ⟨_, step, _, rfl⟩ | ⟨_, step, ended⟩ :=
          step
        · rw [step] at grows
          exact grows
        · rw [step] at grows
          exact grows
        · rw [step] at grows
          exact grows.trans (inductionHypothesis ended)

/-- A call forgets nothing of its first round. -/
theorem shrinkLoop_grows_round
    {node : Nat}
    (lp : state.lp = some node)
    (ended :
      shrinkLoop self max wbonly (round :: rounds) state =
        some (result, final)) :
    Grows (shrinkRound self max wbonly round state).state final := by
  rw [shrinkLoop_cons lp] at ended
  cases step : shrinkRound self max wbonly round state with
  | stopped stopped =>
      rw [step] at ended
      cases ended
      exact Grows.refl _
  | returned returned =>
      rw [step] at ended
      cases ended
      exact Grows.refl _
  | next middle =>
      rw [step] at ended
      exact shrinkLoop_grows ended

end Growth

/-! ## One round -/

section Rounds

variable {self max frame node : Nat}
variable {rest : List Nat}
variable {round : ShrinkRound}
variable {state after : Shrinker}
variable {pc : PCache}

/-- The pools that were found are what the others may have made of those left. -/
def FairWindows (self : Nat) (state : Shrinker) : Prop :=
  ∀ window ∈ state.windows, ByOthers self window.1 window.2

/-- Everything that was done is fine, and the free pages are counted. -/
structure DoneFine (state : Shrinker) : Prop where
  events : ∀ event ∈ state.log, event.Fine
  counted : state.freeNr = state.freed.length

/-- What holds at the head of a round. -/
structure ShrinkSoFar (state : Shrinker) : Prop where
  sound : PoolSound state.pool
  locked : state.locked = true
  fine : DoneFine state

/-- A round is over: the shrinker holds the lock, and may have freed a page. -/
structure RoundOver
    (round : ShrinkRound)
    (count : Nat)
    (state after : Shrinker) : Prop where
  soFar : ShrinkSoFar after
  pool : after.pool = round.released
  lp : after.lp = state.np
  np : after.np = lruNext round.released.lru state.np
  freeNr : after.freeNr = state.freeNr + count

/-- A round is over for every state with its saved entry and its number. -/
theorem RoundOver.of_eq
    {count : Nat}
    {other : Shrinker}
    (done : RoundOver round count state after)
    (np : state.np = other.np)
    (freeNr : state.freeNr = other.freeNr) :
    RoundOver round count other after where
  soFar := done.soFar
  pool := done.pool
  lp := done.lp.trans np
  np := np ▸ done.np
  freeNr := freeNr ▸ done.freeNr

/-- A page of the shrinker that nobody else refers to, without the lock. -/
structure Releasing
    (thread frame : Nat)
    (state : Shrinker)
    (pc : PCache) : Prop where
  sound : PoolSound state.pool
  own : state.pool.ownPage thread frame = some pc
  count : pc.refs = 1
  clean : pc.clean = true
  unlocked : state.locked = false
  fine : DoneFine state

/-- An event that frees no page leaves what was done fine. -/
theorem DoneFine.note
    (event : ShrinkEvent)
    (fine : DoneFine state)
    (eventFine : event.Fine)
    (noPage : ∀ frame, event ≠ .free frame)
    (log : after.log = event :: state.log)
    (freeNr : after.freeNr = state.freeNr) :
    DoneFine after where
  events := by
    rw [log, List.forall_mem_cons]
    exact ⟨eventFine, fine.events⟩
  counted := by
    have same : after.freed = state.freed := by
      rw [Shrinker.freed, log, List.filterMap_cons_none]
      · rfl
      · cases event with
        | free frame => exact absurd rfl (noPage frame)
        | _ => rfl
    rw [freeNr, same]
    exact fine.counted

theorem DoneFine.setPool
    (fine : DoneFine state)
    (pool : Pool) :
    DoneFine (state.setPool pool) where
  events := fine.events
  counted := fine.counted

theorem DoneFine.countFree
    (fine : DoneFine state)
    (frame : Nat) :
    DoneFine (state.countFree frame) where
  events := by
    rw [Shrinker.countFree, List.forall_mem_cons]
    exact ⟨trivial, fine.events⟩
  counted := by
    show state.freeNr + 1 = (frame :: state.freed).length
    rw [List.length_cons, fine.counted]

theorem DoneFine.lock
    (fine : DoneFine state)
    (unlocked : state.locked = false)
    (found : Pool) :
    DoneFine (state.lock found) :=
  fine.note (.lock state.locked) unlocked (fun _ => nofun) rfl rfl

theorem DoneFine.unlock
    (fine : DoneFine state)
    (locked : state.locked = true) :
    DoneFine state.unlock :=
  fine.note (.unlock state.locked) locked (fun _ => nofun) rfl rfl

theorem DoneFine.advance
    (fine : DoneFine state)
    (locked : state.locked = true) :
    DoneFine state.advance :=
  fine.note (.access state.locked) locked (fun _ => nofun) rfl rfl

/-- A round that ends by releasing the lock and taking it again is over. -/
theorem roundOver_endRound
    {left : Shrinker}
    (state : Shrinker)
    (fine : DoneFine left)
    (locked : left.locked = true)
    (sound : PoolSound left.pool)
    (released : ByOthers self left.pool round.released)
    (np : left.np = state.np)
    (count : Nat)
    (freeNr : left.freeNr = state.freeNr + count) :
    RoundOver round count state (left.unlock.lock round.released).advance where
  soFar :=
    { sound := (sound.byOthers released).1
      locked := rfl
      fine := ((fine.unlock locked).lock rfl round.released).advance rfl }
  pool := rfl
  lp := np
  np := by
    show lruNext round.released.lru left.np = _
    rw [np]
  freeNr := freeNr

/-- The last part of a round frees its page, unless somebody waits for it. -/
theorem Releasing.shrinkFree_cases
    (releasing : Releasing self frame state pc)
    (fair : FairWindows self (shrinkFree self max round frame state).state) :
    (round.checked.noWaiters frame = true ∧ state.freeNr + 1 = max ∧
        ∃ after,
          shrinkFree self max round frame state = .returned after ∧
            after.locked = false ∧ DoneFine after ∧
              after.freeNr = state.freeNr + 1) ∨
      (round.checked.noWaiters frame = true ∧ state.freeNr + 1 ≠ max ∧
        ∃ after,
          shrinkFree self max round frame state = .next after ∧
            RoundOver round 1 state after) ∨
      (round.checked.noWaiters frame = false ∧
        ∃ after,
          shrinkFree self max round frame state = .next after ∧
            RoundOver round 0 state after) := by
  have checked : ByOthers self state.pool round.checked :=
    fair _ (shrinkFree_grows.windows List.mem_cons_self)
  have sound := (releasing.sound.byOthers checked).1
  obtain ⟨waiters, own, nobody⟩ :=
    checked.ownPage releasing.sound releasing.own
  have dropped :=
    sound.decPcacheReference_eq own releasing.count releasing.clean
  have taken : DoneFine (state.lock round.checked) :=
    releasing.fine.lock releasing.unlocked round.checked
  have called : (state.lock round.checked).pool = round.checked := rfl
  rw [shrinkFree, called, dropped] at fair ⊢
  cases waiters with
  | nil =>
      simp only [if_true] at fair ⊢
      have keeps := sound.decPcacheReference (dropped.trans (if_pos rfl))
      have freed :=
        (taken.setPool (round.checked.removePage frame)).countFree frame
      have count :
          ((((state.lock round.checked).setPool
            (round.checked.removePage frame)).countFree frame).unlock).freeNr =
              state.freeNr + 1 := rfl
      rw [count] at fair ⊢
      by_cases enough : state.freeNr + 1 = max
      · rw [if_pos enough] at fair ⊢
        exact .inl ⟨nobody, enough, _, rfl, rfl, freed.unlock rfl, rfl⟩
      · rw [if_neg enough] at fair ⊢
        have released :
            ByOthers self (round.checked.removePage frame) round.released :=
          fair _ List.mem_cons_self
        refine .inr (.inl ⟨nobody, enough, _, rfl, ?_⟩)
        exact
          roundOver_endRound state freed rfl keeps.sound released rfl 1 rfl
  | cons waiter others =>
      have waiting : ¬ waiter :: others = [] := List.cons_ne_nil waiter others
      rw [if_neg waiting] at fair dropped ⊢
      have keeps := sound.decPcacheReference dropped
      have released :
          ByOthers self
            (round.checked.setPage frame
              { pc with waiters := waiter :: others, refs := 1 })
            round.released :=
        fair _ List.mem_cons_self
      refine .inr (.inr ⟨nobody, _, rfl, ?_⟩)
      exact
        roundOver_endRound state (taken.setPool _) rfl keeps.sound released rfl
          0 rfl

/-- From the look at the waiters on: with waiters the queue is read unlocked. -/
theorem Releasing.shrinkRelease_cases
    {dropped : Pool}
    (drop : state.pool.shrinkDrop self frame = some dropped)
    (releasing : Releasing self frame (state.setPool dropped) pc)
    (fair :
      FairWindows self (shrinkRelease self max round frame state).state) :
    (round.written.noWaiters frame = false ∧
        ∃ after,
          shrinkRelease self max round frame state = .next after ∧
            ShrinkEvent.access false ∈ after.log) ∨
      (round.written.noWaiters frame = true ∧
        ∃ later : Shrinker,
          shrinkRelease self max round frame state =
              shrinkFree self max round frame later ∧
            Releasing self frame later
              { pc with waiters := [] } ∧
            later.np = state.np ∧ later.freeNr = state.freeNr) := by
  have written : ByOthers self dropped round.written :=
    fair _ ((shrinkRelease_grows drop).windows List.mem_cons_self)
  have sound := (releasing.sound.byOthers written).1
  obtain ⟨waiters, own, nobody⟩ :=
    written.ownPage releasing.sound releasing.own
  have taken :
      DoneFine ((state.setPool dropped).lock round.written) :=
    releasing.fine.lock releasing.unlocked round.written
  have called :
      ((state.setPool dropped).lock round.written).pool = round.written := rfl
  rw [shrinkRelease, drop]
  simp only [called, Pool.shrinkCheck, own]
  cases waiters with
  | nil =>
      refine .inr ⟨nobody, _, rfl, ?_, rfl, rfl⟩
      exact
        { sound := sound
          own := own
          count := releasing.count
          clean := releasing.clean
          unlocked := rfl
          fine := (taken.setPool round.written).unlock rfl }
  | cons waiter others =>
      exact .inl ⟨nobody, _, rfl, List.mem_cons_self⟩

/-- Without a page on the queue the round takes the queue itself. -/
theorem shrinkRound_empty
    {wbonly : Bool}
    (empty : state.pool.lru = []) :
    ∃ stopped,
      shrinkRound self max wbonly round state = .stopped stopped := by
  refine ⟨(state.note (.access state.locked)).note (.take none), ?_⟩
  rw [shrinkRound, Shrinker.getTop, empty]

/-- A round takes the first page, writes it back and drops its reference. -/
theorem ShrinkSoFar.shrinkRound_eq
    (self max : Nat)
    (round : ShrinkRound)
    (soFar : ShrinkSoFar state)
    (queued : state.pool.lru = frame :: rest) :
    ∃ later dropped pc,
      shrinkRound self max false round state =
          shrinkRelease self max round frame later ∧
        later.pool.shrinkDrop self frame = some dropped ∧
        Releasing self frame (later.setPool dropped) pc ∧
        later.np = state.np ∧ later.freeNr = state.freeNr := by
  obtain ⟨pc, top, taken, own, count⟩ :=
    soFar.sound.shrinkTake_own self queued
  have tookSound := (soFar.sound.shrinkTake taken).sound
  obtain ⟨written, wrote, ownWritten⟩ := tookSound.shrinkWrite_eq own
  have wroteSound := (tookSound.shrinkWrite wrote).sound
  have drop := Pool.shrinkDrop_eq ownWritten count rfl
  have dropSound := (wroteSound.shrinkDrop drop).sound
  let noted :=
    (state.note (.access state.locked)).note (.take (some frame))
  have accessed : DoneFine (state.note (.access state.locked)) :=
    soFar.fine.note (.access state.locked) soFar.locked (fun _ => nofun) rfl rfl
  have fine : DoneFine noted :=
    accessed.note (.take (some frame)) nofun (fun _ => nofun) rfl rfl
  have got : state.getTop self = .ok (frame, noted.setPool top) := by
    have called :
        ((state.note (.access state.locked)).note
          (.take (some frame))).pool = state.pool := rfl
    rw [Shrinker.getTop, queued]
    simp only [called, taken]
    rfl
  have locked : ¬ (noted.setPool top).locked = false := by
    rw [show (noted.setPool top).locked = state.locked from rfl, soFar.locked]
    exact Bool.noConfusion
  refine
    ⟨(noted.setPool top).unlock.setPool written, _,
      { pc with clean := true, dirty := false, refs := 1 }, ?_, drop, ?_, rfl,
      rfl⟩
  · have called : (noted.setPool top).unlock.pool = top := rfl
    rw [shrinkRound, got]
    simp only [if_neg locked, called, wrote]
    rfl
  · exact
      { sound := dropSound
        own :=
          Pool.ownPage_of_pages (Pool.setPage_self ..)
            (Pool.ownPage_eq_some ownWritten).2
        count := rfl
        clean := rfl
        unlocked := rfl
        fine :=
          (((fine.setPool top).unlock soFar.locked).setPool written).setPool _ }

end Rounds

/-! ## The loop -/

section Loop

variable {self max : Nat}
variable {rounds : List ShrinkRound}
variable {result : Option Nat}
variable {state final : Shrinker}

/-- A round that only writes back ends with the lock, or stops. -/
theorem shrinkRound_wbonly
    {round : ShrinkRound} :
    (∃ stopped, shrinkRound self max true round state = .stopped stopped) ∨
      ∃ after,
        shrinkRound self max true round state = .next after ∧
          after.locked = true := by
  rw [shrinkRound]
  split
  · exact .inl ⟨_, rfl⟩
  · split
    · exact .inl ⟨_, rfl⟩
    · dsimp only
      split
      · exact .inl ⟨_, rfl⟩
      · exact .inr ⟨_, rfl, rfl⟩

/-- A call that only writes back stops, or comes back with the lock. -/
theorem shrinkLoop_wbonly
    (locked : state.locked = true)
    (ended :
      shrinkLoop self max true rounds state = some (result, final)) :
    result = none ∨ final.locked = true := by
  induction rounds generalizing state with
  | nil =>
      obtain ⟨_, _, rfl⟩ | ⟨_, _, _, _, impossible, _⟩ := shrinkLoop_ended ended
      · exact .inr locked
      · cases impossible
  | cons first later inductionHypothesis =>
      have round :
          (∃ stopped,
              shrinkRound self max true first state = .stopped stopped) ∨
            ∃ after,
              shrinkRound self max true first state = .next after ∧
                after.locked = true :=
        shrinkRound_wbonly
      obtain ⟨_, _, rfl⟩ | ⟨_, _, _, _, same, step⟩ := shrinkLoop_ended ended
      · exact .inr locked
      · cases same
        obtain ⟨_, step, none, _⟩ | ⟨_, step, _, _⟩ | ⟨_, step, ended⟩ := step
        · exact .inl none
        · rw [step] at round
          obtain ⟨_, wrong⟩ | ⟨_, wrong, _⟩ := round <;> cases wrong
        · rw [step] at round
          obtain ⟨_, wrong⟩ | ⟨after, same, still⟩ := round
          · cases wrong
          · cases same
            exact inductionHypothesis still ended

/-- How a round ends that begins with a page on the queue. -/
theorem ShrinkSoFar.shrinkRound_cases
    {round : ShrinkRound}
    {frame : Nat}
    {rest : List Nat}
    (soFar : ShrinkSoFar state)
    (queued : state.pool.lru = frame :: rest)
    (fair : FairWindows self (shrinkRound self max false round state).state) :
    (round.written.noWaiters frame = false ∧
        ∃ after,
          shrinkRound self max false round state = .next after ∧
            ShrinkEvent.access false ∈ after.log) ∨
      (round.written.noWaiters frame = true ∧
        ((round.checked.noWaiters frame = true ∧ state.freeNr + 1 = max ∧
            ∃ after,
              shrinkRound self max false round state = .returned after ∧
                after.locked = false ∧ DoneFine after ∧
                  after.freeNr = state.freeNr + 1) ∨
          (round.checked.noWaiters frame = true ∧ state.freeNr + 1 ≠ max ∧
            ∃ after,
              shrinkRound self max false round state = .next after ∧
                RoundOver round 1 state after) ∨
          (round.checked.noWaiters frame = false ∧
            ∃ after,
              shrinkRound self max false round state = .next after ∧
                RoundOver round 0 state after))) := by
  obtain ⟨later, dropped, pc, took, drop, releasing, np, freeNr⟩ :=
    soFar.shrinkRound_eq self max round queued
  rw [took] at fair ⊢
  obtain ⟨waiting, after, released, unlocked⟩ |
      ⟨nobody, last, released, alone, lastNp, lastFreeNr⟩ :=
    releasing.shrinkRelease_cases drop fair
  · exact .inl ⟨waiting, after, released, unlocked⟩
  · refine .inr ⟨nobody, ?_⟩
    rw [released] at fair ⊢
    have sameNp : last.np = state.np := lastNp.trans np
    have sameNr : last.freeNr = state.freeNr := lastFreeNr.trans freeNr
    have cases := alone.shrinkFree_cases fair
    rw [sameNr] at cases
    obtain first | ⟨still, more, after, next, done⟩ |
        ⟨waiting, after, next, done⟩ := cases
    · exact .inl first
    · exact .inr (.inl ⟨still, more, after, next, done.of_eq sameNp sameNr⟩)
    · exact .inr (.inr ⟨waiting, after, next, done.of_eq sameNp sameNr⟩)

/-- A call that comes back with the lock does not keep to its task. -/
theorem ShrinkRight.unlocked
    {wbonly : Bool}
    (locked : final.locked = true) :
    ¬ ShrinkRight self max wbonly result final := by
  intro right
  have free := right.lockFree
  rw [locked] at free
  cases free

/-- A call that is fine up to its return keeps to its task. -/
theorem DoneFine.shrinkRight
    (fine : DoneFine final)
    (free : final.locked = false)
    (few : final.freeNr ≤ max) :
    ShrinkRight self max false (some final.freeNr) final where
  events := fine.events
  lockFree := free
  reported := congrArg some fine.counted
  bounded := fine.counted ▸ few
  noneFreed := nofun
  available := nofun

/-- At the end of the queue the call comes back with the lock. -/
theorem ShrinkSoFar.atHead_iff
    (soFar : ShrinkSoFar state)
    (atHead : state.lp = none) :
    ShrinkRight self max false result state ↔
      ReachesMax max state.freeNr state.lp state.np state.pool rounds := by
  refine iff_of_false (ShrinkRight.unlocked soFar.locked) ?_
  rw [atHead]
  intro reaches
  cases reaches

/-- What a call does that is not asked to write back only. -/
theorem shrinkLoop_iff
    (soFar : ShrinkSoFar state)
    (ended :
      shrinkLoop self max false rounds state = some (result, final))
    (fair : FairWindows self final) :
    ShrinkRight self max false result final ↔
      ReachesMax max state.freeNr state.lp state.np state.pool rounds := by
  induction rounds generalizing state with
  | nil =>
      obtain ⟨atHead, _, rfl⟩ | ⟨_, _, _, _, impossible, _⟩ :=
        shrinkLoop_ended ended
      · exact soFar.atHead_iff atHead
      · cases impossible
  | cons round later inductionHypothesis =>
      cases lp : state.lp with
      | none =>
          rw [shrinkLoop_atHead lp] at ended
          cases ended
          rw [← lp]
          exact soFar.atHead_iff lp
      | some node =>
          have roundFair :
              FairWindows self
                (shrinkRound self max false round state).state :=
            fun window member =>
              fair window ((shrinkLoop_grows_round lp ended).windows member)
          rw [shrinkLoop_cons lp] at ended
          cases lru : state.pool.lru with
          | nil =>
              -- the queue itself is taken for a page
              obtain ⟨_, stops⟩ :
                  ∃ stopped,
                    shrinkRound self max false round state =
                      .stopped stopped :=
                shrinkRound_empty lru
              rw [stops] at ended
              cases ended
              refine iff_of_false (fun right => nomatch right.reported) ?_
              intro reaches
              obtain ⟨_, _, queued⟩ := reaches.queued
              rw [lru] at queued
              cases queued
          | cons frame rest =>
              rw [ReachesMax.iff_of_queued lru]
              obtain ⟨waiting, after, next, unlocked⟩ |
                  ⟨nobody, ⟨still, enough, after, returns, free, fine, freeNr⟩ |
                    ⟨still, more, after, next, done⟩ |
                    ⟨waiting, after, next, done⟩⟩ :=
                soFar.shrinkRound_cases lru roundFair
              · -- somebody waits: the rest of the walk is without the lock
                rw [next] at ended
                refine iff_of_false ?_ ?_
                · intro right
                  have held :=
                    right.events _ ((shrinkLoop_grows ended).log unlocked)
                  cases held
                · rw [waiting]
                  exact fun reaches => nomatch reaches.1
              · rw [returns] at ended
                cases ended
                refine iff_of_true ?_ ⟨nobody, .inl ⟨still, enough⟩⟩
                exact fine.shrinkRight free (freeNr.trans enough).le
              · rw [next] at ended
                rw [inductionHypothesis done.soFar ended, done.freeNr, done.lp,
                  done.np, done.pool]
                simp [nobody, still, more]
              · rw [next] at ended
                rw [inductionHypothesis done.soFar ended, done.freeNr, done.lp,
                  done.np, done.pool]
                simp [nobody, waiting]

end Loop

/-! ## A call -/

section Call

variable {self max : Nat}
variable {wbonly : Bool}
variable {rounds : List ShrinkRound}
variable {result : Option Nat}
variable {pool : Pool}
variable {final : Shrinker}

/-- At the head of the first round the lock is held and no page was freed. -/
theorem shrinkStart_soFar
    (sound : PoolSound pool) :
    ShrinkSoFar (shrinkStart pool) where
  sound := sound
  locked := rfl
  fine :=
    { events := by
        intro event member
        simp only [shrinkStart, List.mem_cons, List.not_mem_nil] at member
        obtain rfl | rfl | impossible := member
        · rfl
        · rfl
        · cases impossible
      counted := rfl }

/--
A call keeps to its task when it is not asked to write back only, and frees its
last page before the walk comes to its end, to an empty queue or to a page that
somebody waits for.
-/
theorem shrinkRight_iff
    (sound : PoolSound pool)
    (ended :
      pagecacheShrinkPages self max wbonly rounds pool =
        some (result, final))
    (fair : FairWindows self final) :
    ShrinkRight self max wbonly result final ↔
      wbonly = false ∧
        ReachesMax max 0 (lruNext pool.lru none)
          (lruNext pool.lru (lruNext pool.lru none)) pool rounds := by
  cases wbonly with
  | false =>
      rw [eq_self, true_and]
      exact shrinkLoop_iff (shrinkStart_soFar sound) ended fair
  | true =>
      refine iff_of_false ?_ fun right => nomatch right.1
      obtain rfl | locked := shrinkLoop_wbonly rfl ended
      · exact fun right => nomatch right.reported
      · exact ShrinkRight.unlocked locked

end Call

/-- A clean page of the device 0. -/
def cleanPage
    (busy : Option Nat)
    (refs : Nat) : PCache where
  bdevid := 0
  offset := 0
  busy := busy
  clean := true
  dirty := false
  refs := refs
  waiters := []

/-- The first thread has got a page. -/
def gotPool : Pool :=
  { emptyPool.setPage 5 (cleanPage (some 1) 2) with tree := [5] }

/-- It has put the page, which is now on the LRU queue. -/
def onePagePool : Pool :=
  { (gotPool.setPage 5 (cleanPage (some 1) 1)).setPage 5
      (cleanPage none 2) with
    lru := [5] }

theorem onePagePool_sound : PoolSound onePagePool := by
  have got : StepOf poolNext emptyPool (.lookupNew 1 5 0 0) gotPool := rfl
  have put : StepOf poolNext gotPool (.put 1 5) onePagePool := rfl
  exact poolSound_of_run (Run.snoc (Run.snoc Run.nil got) put)

/-- The second thread has taken the page to shrink the cache. -/
def takenPool : Pool :=
  { onePagePool.setPage 5 (cleanPage (some 2) 2) with lru := [] }

/-- It has dropped its reference. -/
def droppedPool : Pool :=
  takenPool.setPage 5 (cleanPage (some 2) 1)

/-- A round in which no other thread does anything, up to the end of the page. -/
def aloneRound : ShrinkRound where
  written := droppedPool
  checked := droppedPool
  released := droppedPool.removePage 5

/-- Nobody did anything while the shrinker did not hold the lock. -/
theorem fairWindows_of_alone
    {self : Nat}
    {final : Shrinker}
    (alone : ∀ window ∈ final.windows, window.1 = window.2) :
    FairWindows self final := by
  intro window member
  rw [alone window member]
  exact ⟨[], Run.nil⟩

/-- What a call does to a page that it frees at last. -/
def freeingLog : List ShrinkEvent :=
  [.unlock true, .free 5, .lock false, .unlock true, .lock false,
    .unlock true, .take (some 5), .access true, .access true, .lock false]

/-- Alone with its one page, a call that is to free one page keeps to its task. -/
theorem shrinkRight_iff_onePage :
    ∃ final,
      pagecacheShrinkPages 2 1 false [aloneRound] onePagePool =
          some (some 1, final) ∧
        ShrinkRight 2 1 false (some 1) final := by
  let final : Shrinker :=
    { pool := droppedPool.removePage 5
      locked := false
      lp := some 5
      np := none
      freeNr := 1
      log := freeingLog
      windows := [(droppedPool, droppedPool), (droppedPool, droppedPool)] }
  have ended :
      pagecacheShrinkPages 2 1 false [aloneRound] onePagePool =
        some (some 1, final) := rfl
  have fair : FairWindows 2 final := by
    apply fairWindows_of_alone
    simp [final]
  exact
    ⟨final, ended,
      (shrinkRight_iff onePagePool_sound ended fair).mpr
        ⟨rfl, .last rfl (by decide) (by decide) rfl⟩⟩

/--
Alone with its one page, a call that may free more frees it and comes back with
the lock; a call that only writes back leaves the page BUSY and off the queue.
-/
theorem lock_kept_at_return :
    (∃ final,
      pagecacheShrinkPages 2 8 false [aloneRound] onePagePool =
          some (some 1, final) ∧
        FairWindows 2 final ∧ final.locked = true ∧
          ¬ ShrinkRight 2 8 false (some 1) final) ∧
      ∃ final,
        pagecacheShrinkPages 2 8 true [{ aloneRound with written := takenPool }]
            onePagePool = some (some 0, final) ∧
          FairWindows 2 final ∧ final.locked = true ∧
            final.pool.lru = [] ∧
              final.pool.pages 5 = some (cleanPage (some 2) 2) ∧
                ¬ ShrinkRight 2 8 true (some 0) final := by
  constructor
  · let final : Shrinker :=
      { pool := droppedPool.removePage 5
        locked := true
        lp := none
        np := none
        freeNr := 1
        log := .access true :: .lock false :: freeingLog
        windows :=
          [(droppedPool.removePage 5, droppedPool.removePage 5),
            (droppedPool, droppedPool), (droppedPool, droppedPool)] }
    have fair : FairWindows 2 final := by
      apply fairWindows_of_alone
      simp [final]
    exact ⟨final, rfl, fair, rfl, ShrinkRight.unlocked rfl⟩
  · let final : Shrinker :=
      { pool := takenPool
        locked := true
        lp := none
        np := none
        freeNr := 0
        log :=
          [.access true, .lock false, .unlock true, .take (some 5),
            .access true, .access true, .lock false]
        windows := [(takenPool, takenPool)] }
    have fair : FairWindows 2 final := by
      apply fairWindows_of_alone
      simp [final]
    have busy : takenPool.pages 5 = some (cleanPage (some 2) 2) := by decide
    exact ⟨final, rfl, fair, rfl, rfl, busy, ShrinkRight.unlocked rfl⟩

end RiscvWorkshop.PageCache
