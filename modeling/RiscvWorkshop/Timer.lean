import Mathlib
import RiscvWorkshop.Run
import RiscvWorkshop.KernelBase
import RiscvWorkshop.KernelQueue

namespace RiscvWorkshop.Timer

/-!
# Callouts

The clock, the queue of callouts in the order of their times, and the loop
that calls those that are due.  The lock is free while a callout runs, so the
loop is a step for each time it takes the lock, and other calls may come in
between.  What happened to each request is recorded beside the state.
-/

/-- `TIMER_NS_PER_SEC`. -/
def timerNsPerSec : Nat := 1000 * 1000 * 1000

/-- `TIMER_MS_PER_SEC`. -/
def timerMsPerSec : Nat := 1000

/-- `ktimespec`. -/
structure KTimespec where
  tvSec : Nat
  tvNsec : Nat
deriving Repr, DecidableEq

/-- The nanoseconds that a time stands for. -/
def KTimespec.ns (time : KTimespec) : Nat :=
  time.tvSec * timerNsPerSec + time.tvNsec

/--
`call_out_ent`: an object of the cache with a callout.  The number of the
request and the time it asks for, in nanoseconds, are recorded with it.
-/
structure CallOutEnt where
  addr : Nat
  expire : KTimespec
  callout : Nat
  privateInfo : Nat
  request : Nat
  due : Nat
deriving Repr, DecidableEq

/--
What became of a request: the first update whose resulting time is at or after
its time, whether it was cancelled, and how often its object was returned.
-/
structure Request where
  due : Nat
  dueUpdate : Option Nat
  cancelled : Bool
  returned : Nat
deriving Repr, DecidableEq

/-- A callout that was called, with the update that called it. -/
structure Invocation where
  update : Nat
  ent : CallOutEnt
deriving Repr, DecidableEq

/--
`system_timer` with the objects taken from `callout_ent_cache`, and whether an
update is calling callouts; then the record of updates, requests and calls.
-/
structure SystemTimer where
  curtime : KTimespec
  head : List CallOutEnt
  allocated : List Nat
  invoking : Bool
  updates : Nat
  nextRequest : Nat
  requests : Nat → Option Request
  invocations : List Invocation

/-- `__SYSTEM_TIMER_INITIALIZER`. -/
def systemTimerInitializer : SystemTimer where
  curtime := ⟨0, 0⟩
  head := []
  allocated := []
  invoking := false
  updates := 0
  nextRequest := 0
  requests := fun _ => none
  invocations := []

/-- `calloutent_cmp`. -/
def calloutentCmp (key ent : CallOutEnt) : Int :=
  if key.expire.tvSec < ent.expire.tvSec then -1
  else if key.expire.tvSec > ent.expire.tvSec then 1
  else if key.expire.tvNsec < ent.expire.tvNsec then -1
  else if key.expire.tvNsec > ent.expire.tvNsec then 1
  else 0

/-- The seconds of a relative time in milliseconds. -/
def relSec (relExpireMs : Nat) : Nat :=
  relExpireMs / timerMsPerSec

/-- The nanoseconds beyond the seconds of a relative time. -/
def relNsec (relExpireMs : Nat) : Nat :=
  relExpireMs % timerMsPerSec * 1000 * 1000

/-- The time at which `tim_callout_add` sets a callout. -/
def expireAt
    (curtime : KTimespec)
    (relExpireMs : Nat) : KTimespec :=
  let sec := curtime.tvSec + relSec relExpireMs
  let nsec := relNsec relExpireMs
  if curtime.tvNsec + nsec ≥ timerNsPerSec then
    -- the remainder is taken of the part that is below a second anyway
    ⟨sec + 1, curtime.tvNsec + nsec % timerNsPerSec⟩
  else
    ⟨sec, curtime.tvNsec + nsec⟩

/-- Whether `invoke_callout` stops at an entry. -/
def notYet
    (curtime : KTimespec)
    (ent : CallOutEnt) : Bool :=
  decide (ent.expire.tvSec > curtime.tvSec) ||
    (decide (ent.expire.tvSec = curtime.tvSec) &&
      decide (ent.expire.tvNsec > curtime.tvNsec))

/-- The time after an update. -/
def advance
    (curtime diff : KTimespec) : KTimespec :=
  let nsec := curtime.tvNsec + diff.tvNsec
  if nsec / timerNsPerSec > 0 then
    ⟨curtime.tvSec + nsec / timerNsPerSec + diff.tvSec, nsec % timerNsPerSec⟩
  else
    ⟨curtime.tvSec + diff.tvSec, nsec⟩

namespace SystemTimer

/-- The entry of a request at an address. -/
def newEnt
    (timer : SystemTimer)
    (relExpireMs callout privateInfo addr : Nat) : CallOutEnt :=
  { addr
    expire := expireAt timer.curtime relExpireMs
    callout
    privateInfo
    request := timer.nextRequest
    due := timer.curtime.ns + relExpireMs * 1000 * 1000 }

/--
`tim_callout_add`: the entry goes into the queue.  A request that is due while
an update calls callouts belongs to that update.
-/
def timCalloutAdd
    (timer : SystemTimer)
    (relExpireMs callout privateInfo : Nat) :
    Option Nat → Option (Except Errno Nat × SystemTimer)
  | none => some (.error .enomem, timer)
  | some addr =>
      -- the cache gives out no object that is in use
      if addr ∈ timer.allocated then
        none
      else
        let cur := timer.newEnt relExpireMs callout privateInfo addr
        let request :=
          { due := cur.due
            dueUpdate :=
              if timer.invoking ∧ cur.due ≤ timer.curtime.ns then
                some timer.updates
              else
                none
            cancelled := false
            returned := 0 }
        some (.ok addr,
          { timer with
            head := queueAddSort calloutentCmp .ascending cur timer.head
            allocated := addr :: timer.allocated
            nextRequest := timer.nextRequest + 1
            requests :=
              Function.update timer.requests timer.nextRequest
                (some request) })

/-- `tim_callout_cancel`: the entry leaves the queue and goes to the cache. -/
def timCalloutCancel
    (timer : SystemTimer)
    (addr : Nat) : Except Errno Unit × SystemTimer :=
  match timer.head.find? (·.addr = addr) with
  | none => (.error .enoent, timer)
  | some cur =>
      (.ok (),
        { timer with
          head := timer.head.erase cur
          allocated := timer.allocated.erase addr
          requests :=
            Function.update timer.requests cur.request
              ((timer.requests cur.request).map fun request =>
                { request with
                  cancelled := true
                  returned := request.returned + 1 }) })

/-- Note the requests that are due for the first time. -/
def noteDue
    (time update : Nat)
    (request : Request) : Request :=
  if request.dueUpdate = none ∧ request.due ≤ time then
    { request with dueUpdate := some update }
  else
    request

/-- `tim_update_walltime` up to the call of `invoke_callout`. -/
def timUpdateWalltime
    (timer : SystemTimer)
    (diff : KTimespec) : SystemTimer :=
  let curtime := advance timer.curtime diff
  let update := timer.updates + 1
  { timer with
    curtime
    invoking := true
    updates := update
    requests := fun number =>
      (timer.requests number).map (noteDue curtime.ns update) }

/--
One turn of the loop of `invoke_callout`: the head is taken and called, or the
loop ends.  The object of an entry that was called is not returned.
-/
def invokeCallout (timer : SystemTimer) : SystemTimer :=
  match timer.head with
  | [] => { timer with invoking := false }
  | cur :: rest =>
      if notYet timer.curtime cur then
        { timer with invoking := false }
      else
        { timer with
          head := rest
          invocations := timer.invocations ++ [⟨timer.updates, cur⟩] }

end SystemTimer

/--
The calls of a run.  An update is followed by the turns of its loop, between
which the callouts and other threads add and cancel.
-/
inductive TimerCall where
  | add (relExpireMs callout privateInfo : Nat) (addr : Option Nat)
  | cancel (addr : Nat)
  | update (diff : KTimespec)
  | turn
deriving Repr, DecidableEq

/-- One call, or one turn of the loop. -/
def timerNext (timer : SystemTimer) : TimerCall → Option SystemTimer
  | .add relExpireMs callout privateInfo addr =>
      (timer.timCalloutAdd relExpireMs callout privateInfo addr).map (·.2)
  | .cancel addr => some (timer.timCalloutCancel addr).2
  | .update diff =>
      if timer.invoking then none else some (timer.timUpdateWalltime diff)
  | .turn => if timer.invoking then some timer.invokeCallout else none

end RiscvWorkshop.Timer
