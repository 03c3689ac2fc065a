import Mathlib
import RiscvWorkshop.Run
import RiscvWorkshop.PageFrameShape

namespace RiscvWorkshop.Pfdb

open BuddyTiling

/-!
# Concurrent use counts of one page frame

Any number of holders raise and drop the use count of a page.  Raising is a
read followed by a compare-and-swap loop, dropping is one atomic subtraction
followed, for the last holder, by the return of the page to its pool.  Each
atomic access is a step of its own, and the calls in progress are kept in a
list without an order between them.
-/

/-- Where a call of the two functions stands. -/
inductive UseCall where
  /-- `atomic_add_fetch_unless` before its first read. -/
  | incRead
  /-- The loop of `atomic_add_fetch_unless` with the value seen last. -/
  | incLoop (cur : Int32)
  /-- `pfdb_dec_page_use_count` before the subtraction. -/
  | decSub
  /-- The subtraction gave 0; the page is not given back yet. -/
  | decEnqueue
  /-- The page is given back; the call has yet to return true. -/
  | decReturn
deriving Repr, DecidableEq

/-- The steps of a run on one page frame. -/
inductive UseStep where
  | callInc
  | callDec
  | incRead
  | incTry (cur : Int32)
  | decSub
  | decEnqueue
  | decReturn
deriving Repr, DecidableEq

/--
The pool of the page, the calls in progress, and a record of what happened:
the references that holders have, the increments that succeeded, the
decrements that returned true, and how often the page was put back.
-/
structure UseCountState where
  pool : PageBuddy
  calls : List UseCall
  held : Nat
  granted : Nat
  returnedTrue : Nat
  putBack : Nat

namespace UseCountState

/-- The use count of a page frame. -/
def usecnt (state : UseCountState) (idx : Nat) : Int32 :=
  (state.pool.array idx).usecnt

/-- Store a use count. -/
def setUsecnt
    (state : UseCountState)
    (idx : Nat)
    (usecnt : Int32) : UseCountState :=
  { state with pool := state.pool.modify idx fun pf => { pf with usecnt } }

end UseCountState

/--
One atomic step.  There is no next state when no call stands at the step, when
a caller drops a reference that nobody holds, or when an assertion stops.
-/
def useCountNext
    (idx : Nat)
    (state : UseCountState) :
    UseStep → Option UseCountState
  | .callInc => some { state with calls := .incRead :: state.calls }
  | .callDec =>
      if 0 < state.held then
        some { state with
          held := state.held - 1
          calls := .decSub :: state.calls }
      else
        none
  | .incRead =>
      if .incRead ∈ state.calls then
        some { state with
          calls :=
            .incLoop (state.usecnt idx) :: state.calls.erase .incRead }
      else
        none
  | .incTry cur =>
      if .incLoop cur ∈ state.calls then
        let calls := state.calls.erase (.incLoop cur)
        if cur = 0 then
          some { state with calls }
        else if state.usecnt idx = cur then
          some { state.setUsecnt idx (cur + 1) with
            calls
            held := state.held + 1
            granted := state.granted + 1 }
        else
          some { state with calls := .incLoop (state.usecnt idx) :: calls }
      else
        none
  | .decSub =>
      if .decSub ∈ state.calls then
        let calls := state.calls.erase .decSub
        let new := state.usecnt idx - 1
        if new < 0 then
          none
        else if new = 0 then
          some { state.setUsecnt idx new with calls := .decEnqueue :: calls }
        else
          some { state.setUsecnt idx new with calls }
      else
        none
  | .decEnqueue =>
      if .decEnqueue ∈ state.calls ∧
          (state.pool.array idx).used ∧ (state.pool.array idx).mapcnt = 0 then
        (enqueuePageToBuddyPool state.pool idx).map fun pool =>
          { state with
            pool
            calls := .decReturn :: state.calls.erase .decEnqueue
            putBack := state.putBack + 1 }
      else
        none
  | .decReturn =>
      if .decReturn ∈ state.calls then
        some { state with
          calls := state.calls.erase .decReturn
          returnedTrue := state.returnedTrue + 1 }
      else
        none

/-- A page as `pfdb_buddy_dequeue` hands it out: one reference, no calls. -/
structure HandedOut
    (idx : Nat)
    (state : UseCountState) : Prop where
  usecnt : state.usecnt idx = 1
  calls : state.calls = []
  held : state.held = 1
  granted : state.granted = 0
  returnedTrue : state.returnedTrue = 0
  putBack : state.putBack = 0

/-- No decrement is in progress. -/
def UseCountState.NoDecInProgress (state : UseCountState) : Prop :=
  .decSub ∉ state.calls ∧ .decEnqueue ∉ state.calls ∧ .decReturn ∉ state.calls

/-- `enqueue_page_to_buddy_pool` writes no use count. -/
theorem enqueuePageToBuddyPool_usecnt
    {idx : Nat}
    {pool after : PageBuddy}
    (executed : enqueuePageToBuddyPool pool idx = some after)
    (other : Nat) :
    (after.array other).usecnt = (pool.array other).usecnt := by
  obtain ⟨endIdx, merged, looped, rfl⟩ :=
    enqueuePageToBuddyPool_shape executed
  have cleared :
      ((clearClusteredPages merged endIdx).array other).usecnt =
        (merged.array other).usecnt := by
    simp only [clearClusteredPages, PageBuddy.modifyCluster]
    split <;> rfl
  refine cleared.trans ?_
  rw [(SameButOrders.enqueueLoop looped).frame other]
  by_cases same : other = idx
  · subst same
    simp [unmarkPageUsage]
  · simp [unmarkPageUsage, same]

/-! ## The invariant -/

namespace UseCountState

/-- The references not yet subtracted: the held ones, and those being dropped. -/
def references (state : UseCountState) : Nat :=
  state.held + state.calls.count .decSub

/-- The decrements that brought the count to 0. -/
def lastDecs (state : UseCountState) : Nat :=
  state.calls.count .decEnqueue + state.calls.count .decReturn +
    state.returnedTrue

end UseCountState

/-- The counter holds the references, until the last one is gone for good. -/
structure UseCountSound
    (idx : Nat)
    (state : UseCountState) : Prop where
  counted : state.usecnt idx = Int32.ofNat state.references
  bounded : state.references ≤ 2 ^ 32
  alive : state.lastDecs = 0 → 1 ≤ state.references
  gone : state.lastDecs ≠ 0 → state.references = 0 ∧ state.lastDecs = 1
  putBack :
    state.putBack = state.calls.count .decReturn + state.returnedTrue

/-- A 32-bit count is 0 only for no references, or for a full round. -/
theorem int32_ofNat_eq_zero
    {references : Nat} :
    Int32.ofNat references = 0 ↔ references % 2 ^ 32 = 0 := by
  rw [← Int32.toBitVec_inj]
  simp [BitVec.ofNat_eq_ofNat, ← BitVec.toNat_inj]

theorem int32_ofNat_succ_sub_one
    (references : Nat) :
    Int32.ofNat (references + 1) - 1 = Int32.ofNat references := by
  rw [Int32.ofNat_add]
  exact Int32.add_sub_cancel _ _

theorem int32_ofNat_add_one
    (references : Nat) :
    Int32.ofNat references + 1 = Int32.ofNat (references + 1) := by
  rw [Int32.ofNat_add]
  rfl

namespace UseCountSound

variable {idx : Nat}
variable {state after : UseCountState}

/-- A page that was just handed out is counted by its one reference. -/
theorem of_handedOut
    (fresh : HandedOut idx state) :
    UseCountSound idx state := by
  have references : state.references = 1 := by
    simp [UseCountState.references, fresh.held, fresh.calls]
  have lastDecs : state.lastDecs = 0 := by
    simp [UseCountState.lastDecs, fresh.calls, fresh.returnedTrue]
  refine ⟨?_, by omega, fun _ => by omega, fun some => ?_, ?_⟩
  · rw [fresh.usecnt, references]
    rfl
  · exact absurd lastDecs some
  · simp [fresh.putBack, fresh.calls, fresh.returnedTrue]

/-- A nonzero count below a full round means that no last decrement happened. -/
theorem references_of_usecnt_ne_zero
    (sound : UseCountSound idx state)
    (nonzero : state.usecnt idx ≠ 0) :
    1 ≤ state.references ∧ state.references < 2 ^ 32 := by
  have bounded := sound.bounded
  rw [sound.counted, Ne, int32_ofNat_eq_zero] at nonzero
  omega

/-- Steps that touch neither the counter nor the number of references. -/
theorem unchanged
    (sound : UseCountSound idx state)
    (usecnt : after.usecnt idx = state.usecnt idx)
    (references : after.references = state.references)
    (lastDecs : after.lastDecs = state.lastDecs)
    (putBack :
      after.putBack = after.calls.count .decReturn + after.returnedTrue) :
    UseCountSound idx after where
  counted := by rw [usecnt, references, sound.counted]
  bounded := references ▸ sound.bounded
  alive := by rw [references, lastDecs]; exact sound.alive
  gone := by rw [references, lastDecs]; exact sound.gone
  putBack := putBack

/-- A successful compare-and-swap adds one reference. -/
theorem raise
    (sound : UseCountSound idx state)
    (nonzero : state.usecnt idx ≠ 0)
    (usecnt : after.usecnt idx = state.usecnt idx + 1)
    (references : after.references = state.references + 1)
    (lastDecs : after.lastDecs = state.lastDecs)
    (putBack :
      after.putBack = after.calls.count .decReturn + after.returnedTrue) :
    UseCountSound idx after := by
  have ⟨positive, below⟩ := sound.references_of_usecnt_ne_zero nonzero
  refine ⟨?_, by omega, fun _ => by omega, fun some => ?_, putBack⟩
  · rw [usecnt, references, sound.counted, int32_ofNat_add_one]
  · rw [lastDecs] at some
    have none := (sound.gone some).1
    omega

/-- The subtraction drops one reference; only the last one leaves 0 behind. -/
theorem lower
    (sound : UseCountSound idx state)
    (usecnt : after.usecnt idx = state.usecnt idx - 1)
    (references : after.references + 1 = state.references)
    (lastDecs :
      after.lastDecs =
        state.lastDecs + if after.usecnt idx = 0 then 1 else 0)
    (putBack :
      after.putBack = after.calls.count .decReturn + after.returnedTrue) :
    UseCountSound idx after := by
  have bounded := sound.bounded
  have none : state.lastDecs = 0 := by
    by_contra some
    have gone := (sound.gone some).1
    omega
  have counted : after.usecnt idx = Int32.ofNat after.references := by
    rw [usecnt, sound.counted, ← references, int32_ofNat_succ_sub_one]
  have zero : after.usecnt idx = 0 ↔ after.references = 0 := by
    rw [counted, int32_ofNat_eq_zero]
    omega
  simp only [none, zero] at lastDecs
  refine ⟨counted, by omega, fun alive => ?_, fun some => ?_, putBack⟩
  · split at lastDecs <;> omega
  · split at lastDecs <;> omega

/-- Every atomic step keeps the invariant. -/
theorem step
    {action : UseStep}
    (sound : UseCountSound idx state)
    (stepped : useCountNext idx state action = some after) :
    UseCountSound idx after := by
  have putBack := sound.putBack
  cases action with
  | callInc =>
      cases stepped
      refine sound.unchanged rfl ?_ ?_ ?_
      · simp [UseCountState.references]
      · simp [UseCountState.lastDecs]
      · simpa using putBack
  | callDec =>
      simp only [useCountNext] at stepped
      split_ifs at stepped with someHeld
      cases stepped
      refine sound.unchanged rfl ?_ ?_ ?_
      · simp only [UseCountState.references, List.count_cons_self]
        omega
      · simp [UseCountState.lastDecs]
      · simpa using putBack
  | incRead =>
      simp only [useCountNext] at stepped
      split_ifs at stepped
      cases stepped
      refine sound.unchanged rfl ?_ ?_ ?_
      · simp [UseCountState.references]
      · simp [UseCountState.lastDecs]
      · simpa using putBack
  | incTry cur =>
      simp only [useCountNext] at stepped
      split_ifs at stepped with looping curZero unchanged
      · cases stepped
        refine sound.unchanged rfl ?_ ?_ ?_
        · simp [UseCountState.references]
        · simp [UseCountState.lastDecs]
        · simpa using putBack
      · cases stepped
        refine sound.raise (unchanged ▸ curZero) ?_ ?_ ?_ ?_
        · simp [UseCountState.usecnt, UseCountState.setUsecnt, ← unchanged]
        · simp only [UseCountState.references]
          simp
          omega
        · simp [UseCountState.lastDecs, UseCountState.setUsecnt]
        · simpa [UseCountState.setUsecnt] using putBack
      · cases stepped
        refine sound.unchanged rfl ?_ ?_ ?_
        · simp [UseCountState.references]
        · simp [UseCountState.lastDecs]
        · simpa using putBack
  | decSub =>
      simp only [useCountNext] at stepped
      split_ifs at stepped with dropping negative zero
      · cases stepped
        have pending := List.count_pos_iff.mpr dropping
        refine sound.lower ?_ ?_ ?_ ?_
        · simp [UseCountState.usecnt, UseCountState.setUsecnt]
        · simp only [UseCountState.references, UseCountState.setUsecnt]
          simp
          omega
        · simp only [UseCountState.usecnt, UseCountState.lastDecs,
            UseCountState.setUsecnt] at zero ⊢
          simp [zero]
          omega
        · simpa [UseCountState.setUsecnt] using putBack
      · cases stepped
        have pending := List.count_pos_iff.mpr dropping
        refine sound.lower ?_ ?_ ?_ ?_
        · simp [UseCountState.usecnt, UseCountState.setUsecnt]
        · simp only [UseCountState.references, UseCountState.setUsecnt]
          simp
          omega
        · simp only [UseCountState.usecnt, UseCountState.lastDecs,
            UseCountState.setUsecnt] at zero ⊢
          simp [zero]
        · simpa [UseCountState.setUsecnt] using putBack
  | decEnqueue =>
      simp only [useCountNext] at stepped
      split_ifs at stepped with last
      obtain ⟨pool, executed, rfl⟩ := Option.map_eq_some_iff.mp stepped
      have pending := List.count_pos_iff.mpr last.1
      refine sound.unchanged
        (enqueuePageToBuddyPool_usecnt executed idx) ?_ ?_ ?_
      · simp [UseCountState.references]
      · simp only [UseCountState.lastDecs]
        simp
        omega
      · simp
        omega
  | decReturn =>
      simp only [useCountNext] at stepped
      split_ifs at stepped with returning
      cases stepped
      have pending := List.count_pos_iff.mpr returning
      refine sound.unchanged rfl ?_ ?_ ?_
      · simp [UseCountState.references]
      · simp only [UseCountState.lastDecs]
        simp
        omega
      · simp
        omega

/-- The invariant holds in every state of a run from a page just handed out. -/
theorem of_run
    {start reached : UseCountState}
    {steps : List UseStep}
    (fresh : HandedOut idx start)
    (run : Run (StepOf (useCountNext idx)) start steps reached) :
    UseCountSound idx reached :=
  run.invariant (of_handedOut fresh) fun sound stepped => sound.step stepped

end UseCountSound

/-- A count of 0 stays 0, and no increment succeeds on it. -/
theorem usecnt_zero_step
    {idx : Nat}
    {state after : UseCountState}
    {action : UseStep}
    (zero : state.usecnt idx = 0)
    (stepped : useCountNext idx state action = some after) :
    after.usecnt idx = 0 ∧ after.granted = state.granted := by
  cases action with
  | callInc =>
      cases stepped
      exact ⟨zero, rfl⟩
  | callDec =>
      simp only [useCountNext] at stepped
      split_ifs at stepped
      cases stepped
      exact ⟨zero, rfl⟩
  | incRead =>
      simp only [useCountNext] at stepped
      split_ifs at stepped
      cases stepped
      exact ⟨zero, rfl⟩
  | incTry cur =>
      simp only [useCountNext] at stepped
      split_ifs at stepped with looping curZero unchanged
      · cases stepped
        exact ⟨zero, rfl⟩
      · exact absurd (unchanged.symm.trans zero) curZero
      · cases stepped
        exact ⟨zero, rfl⟩
  | decSub =>
      -- 0 - 1 is negative, and the assertion stops
      simp only [useCountNext, zero] at stepped
      split_ifs at stepped with dropping negative
      · exact absurd (show (0 : Int32) - 1 < 0 by decide) negative
      · exact absurd (show (0 : Int32) - 1 < 0 by decide) negative
  | decEnqueue =>
      simp only [useCountNext] at stepped
      split_ifs at stepped
      obtain ⟨pool, executed, rfl⟩ := Option.map_eq_some_iff.mp stepped
      exact ⟨(enqueuePageToBuddyPool_usecnt executed idx).trans zero, rfl⟩
  | decReturn =>
      simp only [useCountNext] at stepped
      split_ifs at stepped
      cases stepped
      exact ⟨zero, rfl⟩

/-- A count of 0 stays 0 in every run, and no increment succeeds in it. -/
theorem usecnt_zero_run
    {idx : Nat}
    {state later : UseCountState}
    {steps : List UseStep}
    (zero : state.usecnt idx = 0)
    (run : Run (StepOf (useCountNext idx)) state steps later) :
    later.usecnt idx = 0 ∧ later.granted = state.granted := by
  induction run with
  | nil =>
      exact ⟨zero, rfl⟩
  | snoc _ last inductionHypothesis =>
      have next := usecnt_zero_step inductionHypothesis.1 last
      exact ⟨next.1, next.2.trans inductionHypothesis.2⟩

/-! ## The block of the page -/

/-- Who owns the block that the counted page heads. -/
structure BlockOwned
    (idx order : Nat)
    (live : List Block)
    (state : UseCountState) : Prop where
  handedOut :
    state.lastDecs = 0 → PoolSound state.pool [] (⟨idx, order⟩ :: live)
  inHand :
    .decEnqueue ∈ state.calls →
      PoolSound state.pool [⟨idx, order⟩] live ∧
        (state.pool.array idx).order = order ∧
        (state.pool.array idx).used = true ∧
        (state.pool.array idx).mapcnt = 0
  linked : state.putBack ≠ 0 → PoolSound state.pool [] live
  mapcnt : (state.pool.array idx).mapcnt = 0

namespace BlockOwned

variable {idx order : Nat}
variable {live : List Block}
variable {state after : UseCountState}

/-- Steps of the counters that leave the pool and the last decrement alone. -/
theorem unchanged
    (owned : BlockOwned idx order live state)
    (pool : after.pool = state.pool)
    (lastDecs : after.lastDecs = state.lastDecs)
    (pending : .decEnqueue ∈ after.calls → .decEnqueue ∈ state.calls)
    (putBack : after.putBack = state.putBack) :
    BlockOwned idx order live after where
  handedOut := by rw [pool, lastDecs]; exact owned.handedOut
  inHand := by rw [pool]; exact fun enqueues => owned.inHand (pending enqueues)
  linked := by rw [pool, putBack]; exact owned.linked
  mapcnt := by rw [pool]; exact owned.mapcnt

/-- Before the last decrement the pool may store any use count. -/
theorem count
    (owned : BlockOwned idx order live state)
    (alive : state.lastDecs = 0)
    (usecnt : Int32) :
    PoolSound (state.setUsecnt idx usecnt).pool [] (⟨idx, order⟩ :: live) :=
  (owned.handedOut alive).setUsecnt usecnt ⟨⟨idx, order⟩, by simp, rfl⟩

/-- A state without a last decrement has nothing in hand and nothing put back. -/
theorem of_alive
    (sound : UseCountSound idx after)
    (alive : after.lastDecs = 0)
    (handedOut : PoolSound after.pool [] (⟨idx, order⟩ :: live))
    (mapcnt : (after.pool.array idx).mapcnt = 0) :
    BlockOwned idx order live after := by
  have putBack := sound.putBack
  simp only [UseCountState.lastDecs] at alive
  refine ⟨fun _ => handedOut, fun enqueues => ?_, fun some => ?_, mapcnt⟩
  · have pending := List.count_pos_iff.mpr enqueues
    omega
  · omega

/-- The last decrement takes the block into the hand of its caller. -/
theorem last
    (owned : BlockOwned idx order live state)
    (alive : state.lastDecs = 0)
    (sound : UseCountSound idx after)
    (pool : after.pool = (state.setUsecnt idx 0).pool)
    (enqueues : .decEnqueue ∈ after.calls) :
    BlockOwned idx order live after := by
  have handedOut := owned.handedOut alive
  have head := handedOut.liveHead ⟨idx, order⟩ (by simp)
  have released := handedOut.release (List.mem_cons_self ..)
  have pending := List.count_pos_iff.mpr enqueues
  have putBack := sound.putBack
  have once := sound.gone
  have lastDecs : after.lastDecs =
      after.calls.count .decEnqueue + after.calls.count .decReturn +
        after.returnedTrue := rfl
  have mapcnt : (after.pool.array idx).mapcnt = 0 := by
    rw [pool]
    simpa [UseCountState.setUsecnt] using owned.mapcnt
  rw [List.erase_cons_head] at released
  refine ⟨fun none => by omega, fun _ => ⟨?_, ?_, ?_, mapcnt⟩,
    fun some => by omega, mapcnt⟩
  · rw [pool]
    exact released
  · rw [pool]
    simpa [UseCountState.setUsecnt] using head.1
  · rw [pool]
    simpa [UseCountState.setUsecnt] using head.2

/-- The block in hand can always be put back. -/
theorem enqueue
    (owned : BlockOwned idx order live state)
    (enqueues : .decEnqueue ∈ state.calls) :
    ∃ pool,
      useCountNext idx state .decEnqueue =
          some { state with
            pool
            calls := .decReturn :: state.calls.erase .decEnqueue
            putBack := state.putBack + 1 } ∧
        PoolSound pool [] live ∧
        (pool.array idx).mapcnt = 0 := by
  obtain ⟨inHand, sameOrder, used, mapcnt⟩ := owned.inHand enqueues
  obtain ⟨pool, executed, linked, region⟩ :=
    enqueuePageToBuddyPool_sound inHand sameOrder
  refine ⟨pool, ?_, linked, (region.mapcnt idx).trans mapcnt⟩
  simp [useCountNext, enqueues, used, mapcnt, executed]

/-- Every atomic step keeps track of the block. -/
theorem step
    {action : UseStep}
    (sound : UseCountSound idx state)
    (owned : BlockOwned idx order live state)
    (stepped : useCountNext idx state action = some after) :
    BlockOwned idx order live after := by
  have afterSound := sound.step stepped
  cases action with
  | callInc =>
      cases stepped
      exact owned.unchanged rfl (by simp [UseCountState.lastDecs]) (by simp)
        rfl
  | callDec =>
      simp only [useCountNext] at stepped
      split_ifs at stepped
      cases stepped
      exact owned.unchanged rfl (by simp [UseCountState.lastDecs]) (by simp)
        rfl
  | incRead =>
      simp only [useCountNext] at stepped
      split_ifs at stepped
      cases stepped
      exact owned.unchanged rfl (by simp [UseCountState.lastDecs]) (by simp)
        rfl
  | incTry cur =>
      simp only [useCountNext] at stepped
      split_ifs at stepped with looping curZero same
      · cases stepped
        exact owned.unchanged rfl (by simp [UseCountState.lastDecs])
          List.mem_of_mem_erase rfl
      · cases stepped
        have alive : state.lastDecs = 0 := by
          by_contra some
          have none := (sound.gone some).1
          have positive :=
            (sound.references_of_usecnt_ne_zero (same ▸ curZero)).1
          omega
        refine of_alive afterSound ?_ (owned.count alive _) ?_
        · simpa [UseCountState.lastDecs, UseCountState.setUsecnt] using alive
        · simpa [UseCountState.setUsecnt] using owned.mapcnt
      · cases stepped
        exact owned.unchanged rfl (by simp [UseCountState.lastDecs]) (by simp)
          rfl
  | decSub =>
      simp only [useCountNext] at stepped
      split_ifs at stepped with dropping negative zero
      · cases stepped
        have pending := List.count_pos_iff.mpr dropping
        have alive : state.lastDecs = 0 := by
          by_contra some
          have none := (sound.gone some).1
          simp only [UseCountState.references] at none
          omega
        refine owned.last alive afterSound ?_ (by simp)
        rw [zero]
      · cases stepped
        have pending := List.count_pos_iff.mpr dropping
        have alive : state.lastDecs = 0 := by
          by_contra some
          have none := (sound.gone some).1
          simp only [UseCountState.references] at none
          omega
        refine of_alive afterSound ?_ (owned.count alive _) ?_
        · simpa [UseCountState.lastDecs, UseCountState.setUsecnt] using alive
        · simpa [UseCountState.setUsecnt] using owned.mapcnt
  | decEnqueue =>
      have enqueues : .decEnqueue ∈ state.calls := by
        simp only [useCountNext] at stepped
        split_ifs at stepped with last
        exact last.1
      obtain ⟨pool, executed, linked, mapcnt⟩ := owned.enqueue enqueues
      rw [executed] at stepped
      cases stepped
      have once := afterSound.gone
      simp only [UseCountState.lastDecs] at once
      refine ⟨fun none => ?_, fun again => ?_, fun _ => linked, mapcnt⟩
      · simp [UseCountState.lastDecs] at none
      · have pending := List.count_pos_iff.mpr again
        simp only [List.count_cons_self] at pending once
        omega
  | decReturn =>
      simp only [useCountNext] at stepped
      split_ifs at stepped with returning
      cases stepped
      have pending := List.count_pos_iff.mpr returning
      refine owned.unchanged rfl ?_ List.mem_of_mem_erase rfl
      simp only [UseCountState.lastDecs]
      simp
      omega

/-- The block is tracked in every run from a page just handed out. -/
theorem of_run
    {start reached : UseCountState}
    {steps : List UseStep}
    (fresh : HandedOut idx start)
    (handedOut : PoolSound start.pool [] (⟨idx, order⟩ :: live))
    (unmapped : (start.pool.array idx).mapcnt = 0)
    (run : Run (StepOf (useCountNext idx)) start steps reached) :
    BlockOwned idx order live reached := by
  induction run with
  | nil =>
      refine of_alive (.of_handedOut fresh) ?_ handedOut unmapped
      simp [UseCountState.lastDecs, fresh.calls, fresh.returnedTrue]
  | snoc earlier last inductionHypothesis =>
      exact inductionHypothesis.step (UseCountSound.of_run fresh earlier) last

end BlockOwned

/-! ## One life of a page -/

/--
From its hand-out on, with any number of holders: no increment succeeds once
the count was 0, at most one decrement returns true and the page is put back
at most once, both exactly once when every reference is dropped; and the last
decrement can always put the page back, after which its block is free.
-/
theorem use_count_life
    {idx : Nat}
    {start reached : UseCountState}
    {steps : List UseStep}
    (fresh : HandedOut idx start)
    (run : Run (StepOf (useCountNext idx)) start steps reached) :
    (reached.usecnt idx = 0 →
      ∀ moreSteps later,
        Run (StepOf (useCountNext idx)) reached moreSteps later →
        later.usecnt idx = 0 ∧ later.granted = reached.granted) ∧
    reached.returnedTrue ≤ reached.putBack ∧
    reached.putBack ≤ 1 ∧
    (reached.held = 0 → reached.NoDecInProgress →
      reached.returnedTrue = 1 ∧ reached.putBack = 1) ∧
    (∀ order live,
      PoolSound start.pool [] (⟨idx, order⟩ :: live) →
      (start.pool.array idx).mapcnt = 0 →
      (.decEnqueue ∈ reached.calls →
        ∃ after, useCountNext idx reached .decEnqueue = some after) ∧
      (reached.putBack = 1 → PoolSound reached.pool [] live)) := by
  have sound := UseCountSound.of_run fresh run
  have putBack := sound.putBack
  have alive := sound.alive
  have gone := sound.gone
  simp only [UseCountState.lastDecs, UseCountState.references] at alive gone
  refine ⟨fun zero _ _ later => usecnt_zero_run zero later, by omega, by omega,
    fun noneHeld noDec => ?_, fun order live handedOut unmapped => ?_⟩
  · have noSub := List.count_eq_zero.mpr noDec.1
    have noEnqueue := List.count_eq_zero.mpr noDec.2.1
    have noReturn := List.count_eq_zero.mpr noDec.2.2
    omega
  · have owned := BlockOwned.of_run fresh handedOut unmapped run
    refine ⟨fun enqueues => ?_, fun once => owned.linked (by omega)⟩
    obtain ⟨pool, executed, _⟩ := owned.enqueue enqueues
    exact ⟨_, executed⟩

/-- A region of one page that is handed out. -/
def onePageOut : UseCountState where
  pool :=
    { freeNr := fun _ => 0
      pageList := fun _ => []
      nrPages := 1
      availablePages := 1
      usagePages := fun _ => 0
      array := fun _ =>
        { used := true
          reserved := false
          clustered := false
          usecase := fun _ => false
          pfn := 0
          usecnt := 1
          mapcnt := 0
          order := 0
          headp := none } }
  calls := []
  held := 1
  granted := 0
  returnedTrue := 0
  putBack := 0

/-- Two holders drop the page while a third caller comes too late. -/
def twoHoldersAndLateCaller : List UseStep :=
  [.callInc, .incRead, .callInc, .incRead, .incTry 1, .callDec, .callDec,
    .decSub, .decSub, .incTry 1, .decEnqueue, .incTry 0, .decReturn]

theorem use_count_life_twoHolders :
    ∃ reached,
      execute (useCountNext 0) onePageOut twoHoldersAndLateCaller =
          some reached ∧
        reached.granted = 1 ∧ reached.returnedTrue = 1 ∧
        reached.putBack = 1 := by
  obtain ⟨reached, executed⟩ :
      ∃ reached,
        execute (useCountNext 0) onePageOut twoHoldersAndLateCaller =
          some reached :=
    Option.isSome_iff_exists.mp (by decide +kernel)
  have facts :
      (execute (useCountNext 0) onePageOut twoHoldersAndLateCaller).map
          (fun state => (state.held, state.calls, state.granted)) =
        some (0, [], 1) := by
    decide +kernel
  simp only [executed, Option.map_some, Option.some.injEq,
    Prod.mk.injEq] at facts
  obtain ⟨noneHeld, noCalls, granted⟩ := facts
  have once :=
    (use_count_life ⟨rfl, rfl, rfl, rfl, rfl, rfl⟩
      (Run.of_execute executed)).2.2.2.1 noneHeld
      (by simp [UseCountState.NoDecInProgress, noCalls])
  exact ⟨reached, executed, granted, once⟩

end RiscvWorkshop.Pfdb
