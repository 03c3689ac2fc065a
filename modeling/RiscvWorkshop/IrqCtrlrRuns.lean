import Mathlib
import RiscvWorkshop.Run
import RiscvWorkshop.IrqCtrlrs

namespace RiscvWorkshop.IrqCtrlrs

open Irq SearchTree

/-!
# Runs of registrations of controllers and handlers

Which ranges the test of a registration misjudges, which numbers the lookup
stops at, and what the missing count of handlers lets happen.
-/

section Ranges

variable {Hw : Type}

/-- Two controllers share a number. -/
def Share
    (one other : Ctrlr Hw) : Prop :=
  ∃ irq,
    (one.minIrq ≤ irq ∧ irq < one.maxIrq) ∧
      (other.minIrq ≤ irq ∧ irq < other.maxIrq)

/--
The test sees a registered and a new range as they are: not a new range that
is the end of the registered one, and not an empty range as a meeting one.
-/
def ToldApart
    (found ctrlr : Ctrlr Hw) : Prop :=
  if found.minIrq < found.maxIrq ∧ ctrlr.minIrq < ctrlr.maxIrq then
    ¬ (found.minIrq < ctrlr.minIrq ∧ found.maxIrq = ctrlr.maxIrq)
  else
    ¬ rangesMeet found ctrlr

instance
    (found ctrlr : Ctrlr Hw) :
    Decidable (ToldApart found ctrlr) :=
  inferInstanceAs
    (Decidable
      (if found.minIrq < found.maxIrq ∧ ctrlr.minIrq < ctrlr.maxIrq then
        ¬ (found.minIrq < ctrlr.minIrq ∧ found.maxIrq = ctrlr.maxIrq)
      else
        ¬ rangesMeet found ctrlr))

/-- Two ranges share a number when both begin before either ends. -/
theorem share_iff
    {one other : Ctrlr Hw} :
    Share one other ↔
      one.minIrq < one.maxIrq ∧ one.minIrq < other.maxIrq ∧
        other.minIrq < one.maxIrq ∧ other.minIrq < other.maxIrq := by
  constructor
  · rintro ⟨irq, ⟨low, high⟩, otherLow, otherHigh⟩
    omega
  · rintro ⟨ownOrder, before, after, otherOrder⟩
    refine ⟨max one.minIrq other.minIrq, ⟨?_, ?_⟩, ?_, ?_⟩ <;> omega

theorem Share.symm
    {one other : Ctrlr Hw}
    (share : Share one other) :
    Share other one := by
  obtain ⟨irq, own, others⟩ := share
  exact ⟨irq, others, own⟩

/-- The test is right about exactly the ranges that it sees as they are. -/
theorem toldApart_iff
    {found ctrlr : Ctrlr Hw} :
    ToldApart found ctrlr ↔
      (rangesMeet found ctrlr ↔ Share found ctrlr) := by
  rw [ToldApart, share_iff]
  split_ifs with nonempty
  · obtain ⟨foundOrder, order⟩ := nonempty
    rw [rangesMeet]
    omega
  · have apart :
        ¬ (found.minIrq < found.maxIrq ∧ found.minIrq < ctrlr.maxIrq ∧
          ctrlr.minIrq < found.maxIrq ∧ ctrlr.minIrq < ctrlr.maxIrq) :=
      fun both => nonempty ⟨both.1, both.2.2.2⟩
    simp only [apart, iff_false]

end Ranges

section Lookup

variable {Hw : Type}
variable {info : CtrlrInfo Hw}

/-- A controller serves a number. -/
def Serves
    (info : CtrlrInfo Hw)
    (irq address : Nat) : Prop :=
  (info.ctrlrs address).minIrq ≤ irq ∧ irq < (info.ctrlrs address).maxIrq

instance
    (irq address : Nat) :
    Decidable (Serves info irq address) :=
  inferInstanceAs (Decidable (_ ∧ _))

/-- The range of a controller ends at a number. -/
def EndsAt
    (info : CtrlrInfo Hw)
    (irq address : Nat) : Prop :=
  (info.ctrlrs address).minIrq ≤ irq ∧ irq = (info.ctrlrs address).maxIrq

/-- No controller ends at a number before the queue has one that serves it. -/
def NoneEndsBefore
    (info : CtrlrInfo Hw)
    (irq : Nat)
    (que : List Nat) : Prop :=
  ∀ earlier address later,
    que = earlier ++ address :: later →
    (∀ other ∈ earlier, ¬ Serves info irq other) →
    ¬ EndsAt info irq address

theorem noneEndsBefore_cons
    {irq address : Nat}
    {rest : List Nat} :
    NoneEndsBefore info irq (address :: rest) ↔
      ¬ EndsAt info irq address ∧
        (¬ Serves info irq address → NoneEndsBefore info irq rest) := by
  constructor
  · intro none
    refine ⟨none [] address rest rfl (by simp), ?_⟩
    intro notServed earlier other later shape notEarlier
    refine none (address :: earlier) other later (by rw [shape]; rfl) ?_
    rintro each member
    rcases List.mem_cons.mp member with rfl | member
    · exact notServed
    · exact notEarlier each member
  · rintro ⟨notHead, notRest⟩ earlier other later shape notEarlier
    cases earlier with
    | nil =>
        cases shape
        exact notHead
    | cons first earlier =>
        cases shape
        refine notRest (notEarlier _ (by simp)) earlier other later rfl ?_
        intro each member
        exact notEarlier each (by simp [member])

/-- The lookup stops at a controller that ends at the number. -/
theorem findCtrlr_cons_of_endsAt
    {irq address : Nat}
    {rest : List Nat}
    (ends : EndsAt info irq address) :
    findCtrlr info irq (address :: rest) = none := by
  obtain ⟨low, high⟩ := ends
  have stopped :
      irqCtrlrCmpByIrq irq (info.ctrlrs address).toIrqCtrlr = none := by
    rw [irqCtrlrCmpByIrq, if_neg (by omega), if_neg (by omega),
      if_neg (by omega)]
  rw [findCtrlr, stopped]

/-- The lookup ends at a controller that serves the number. -/
theorem findCtrlr_cons_of_serves
    {irq address : Nat}
    {rest : List Nat}
    (serves : Serves info irq address) :
    findCtrlr info irq (address :: rest) = some (some address) := by
  have equal :
      irqCtrlrCmpByIrq irq (info.ctrlrs address).toIrqCtrlr = some 0 := by
    obtain ⟨low, high⟩ := serves
    rw [irqCtrlrCmpByIrq, if_neg (by omega), if_neg (by omega),
      if_pos ⟨low, high⟩]
  rw [findCtrlr, equal]
  rfl

/-- The lookup passes a controller that neither serves the number nor ends there. -/
theorem findCtrlr_cons_of_not
    {irq address : Nat}
    {rest : List Nat}
    (notServed : ¬ Serves info irq address)
    (notEnding : ¬ EndsAt info irq address) :
    findCtrlr info irq (address :: rest) = findCtrlr info irq rest := by
  rw [Serves] at notServed
  rw [EndsAt] at notEnding
  rw [findCtrlr, irqCtrlrCmpByIrq]
  by_cases before : irq < (info.ctrlrs address).minIrq
  · rw [if_pos before]
    rfl
  · rw [if_neg before, if_pos (by omega)]
    rfl

/-- The lookup comes to an end where no controller ends at the number first. -/
theorem findCtrlr_ne_none_iff
    {irq : Nat}
    {que : List Nat} :
    findCtrlr info irq que ≠ none ↔ NoneEndsBefore info irq que := by
  induction que with
  | nil =>
      simp [findCtrlr, NoneEndsBefore]
  | cons address rest inductionHypothesis =>
      rw [noneEndsBefore_cons, ← inductionHypothesis]
      by_cases ends : EndsAt info irq address
      · simp [findCtrlr_cons_of_endsAt ends, ends]
      · by_cases serves : Serves info irq address
        · simp [findCtrlr_cons_of_serves serves, ends, serves]
        · simp [findCtrlr_cons_of_not serves ends, ends, serves]

/-- A lookup that comes to an end has the first controller that serves. -/
theorem findCtrlr_eq_find
    {irq : Nat}
    {que : List Nat}
    {answer : Option Nat}
    (found : findCtrlr info irq que = some answer) :
    answer = que.find? (Serves info irq ·) := by
  induction que with
  | nil =>
      cases found
      rfl
  | cons address rest inductionHypothesis =>
      by_cases serves : Serves info irq address
      · rw [findCtrlr_cons_of_serves serves] at found
        cases found
        simp [serves]
      · by_cases ends : EndsAt info irq address
        · rw [findCtrlr_cons_of_endsAt ends] at found
          cases found
        · rw [findCtrlr_cons_of_not serves ends] at found
          simpa [serves] using inductionHypothesis found

end Lookup

section Frames

variable {Hw : Type}
variable {rebalancing : Rebalancing Nat}

/-- The records of the controllers and their queue are the same in two states. -/
structure SameCtrlrs
    (info after : CtrlrInfo Hw) : Prop where
  ctrlrs : after.ctrlrs = info.ctrlrs
  ctrlrQue : after.ctrlrQue = info.ctrlrQue

theorem irqlinePut_sameCtrlrs
    {info after : CtrlrInfo Hw}
    {irq : Nat}
    {last : Bool}
    (put : irqlinePut rebalancing info irq = some (last, after)) :
    SameCtrlrs info after := by
  simp only [irqlinePut] at put
  split at put
  · cases put
  · cases put
  · split_ifs at put
    · cases put
      exact ⟨rfl, rfl⟩
    · cases put
      exact ⟨rfl, rfl⟩

theorem irqRegisterHandler_sameCtrlrs
    {info after : CtrlrInfo Hw}
    {irq attr prio handler privateInfo : Nat}
    {result : Except Errno Unit}
    (registered :
      irqRegisterHandler rebalancing info irq attr prio handler privateInfo =
        some (result, after)) :
    SameCtrlrs info after := by
  rw [irqRegisterHandler] at registered
  by_cases invalid : irq ≥ nrIrqs
  · rw [if_pos invalid] at registered
    cases registered
    exact ⟨rfl, rfl⟩
  · rw [if_neg invalid] at registered
    split at registered
    · cases registered
    · cases registered
      exact ⟨rfl, rfl⟩
    · simp only at registered
      split_ifs at registered
      · cases registered
        exact ⟨rfl, rfl⟩
      · cases registered
        exact ⟨rfl, rfl⟩
      · cases registered
        exact ⟨rfl, rfl⟩
      · split at registered
        · cases registered
        · split at registered
          · cases registered
            exact ⟨rfl, rfl⟩
          · cases registered
            exact ⟨rfl, rfl⟩

theorem irqUnregisterHandler_sameCtrlrs
    {info after : CtrlrInfo Hw}
    {irq handler : Nat}
    {result : Except Errno Unit}
    (unregistered :
      irqUnregisterHandler rebalancing info irq handler =
        some (result, after)) :
    SameCtrlrs info after := by
  simp only [irqUnregisterHandler] at unregistered
  by_cases invalid : irq ≥ nrIrqs
  · rw [if_pos invalid] at unregistered
    cases unregistered
    exact ⟨rfl, rfl⟩
  · rw [if_neg invalid] at unregistered
    split at unregistered
    · cases unregistered
    · split at unregistered
      · cases unregistered
        exact ⟨rfl, rfl⟩
      · split_ifs at unregistered
        · obtain ⟨⟨last, put⟩, isPut, shape⟩ :=
            Option.map_eq_some_iff.mp unregistered
          cases shape
          exact ⟨(irqlinePut_sameCtrlrs isPut).ctrlrs,
            (irqlinePut_sameCtrlrs isPut).ctrlrQue⟩
        · cases unregistered
          exact ⟨rfl, rfl⟩

/-- A registration of a controller ends in one of three ways. -/
theorem irqRegisterCtrlr_cases
    (info : CtrlrInfo Hw)
    (address : Nat) :
    (irqRegisterCtrlr info address).2 = info ∨
      ((info.ctrlrs address).opsAreValid = true ∧
        address ∉ info.ctrlrQue ∧
        (∀ found ∈ info.ctrlrQue,
          ¬ rangesMeet (info.ctrlrs found) (info.ctrlrs address)) ∧
        ∃ hw,
          (irqRegisterCtrlr info address).2 =
            { info with
              nrHandlers := Function.update info.nrHandlers address 0
              ctrlrQue := info.ctrlrQue ++ [address]
              hw }) := by
  rw [irqRegisterCtrlr]
  split_ifs with invalid queued meets
  · exact .inl rfl
  · exact .inl rfl
  · exact .inl rfl
  · rw [queueCtrlr]
    cases (info.ctrlrs address).initCtrlr info.hw with
    | error code =>
        exact .inl rfl
    | ok hw =>
        refine .inr ⟨by simpa using invalid, queued, ?_, hw, rfl⟩
        intro found member meet
        exact meets ⟨found, member, meet⟩

/-- A controller leaves the queue or everything stays. -/
theorem irqUnregisterCtrlr_cases
    (info : CtrlrInfo Hw)
    (address : Nat) :
    irqUnregisterCtrlr info address = info ∨
      (¬ 0 < (info.nrHandlers address).toInt ∧
        ∃ hw,
          irqUnregisterCtrlr info address =
            { info with
              ctrlrQue := info.ctrlrQue.erase address
              hw }) := by
  rw [irqUnregisterCtrlr]
  split_ifs with busy queued
  · exact .inl rfl
  · exact .inr ⟨busy, _, rfl⟩
  · exact .inl rfl

end Frames

section Ranges

variable {Hw : Type}
variable {rebalancing : Rebalancing Nat}

/-- Registered controllers share no number. -/
structure RangesApart
    (info : CtrlrInfo Hw) : Prop where
  nodup : info.ctrlrQue.Nodup
  apart :
    ∀ one ∈ info.ctrlrQue, ∀ other ∈ info.ctrlrQue,
      one ≠ other → ¬ Share (info.ctrlrs one) (info.ctrlrs other)

/--
A registration of a controller with valid operations is refused when its range
meets a registered one, and gets past the checks when it meets none.
-/
structure RegistrationRight
    (info : CtrlrInfo Hw)
    (address : Nat) : Prop where
  refused :
    (info.ctrlrs address).opsAreValid = true →
      (∃ found ∈ info.ctrlrQue,
        Share (info.ctrlrs found) (info.ctrlrs address)) →
      irqRegisterCtrlr info address = (.error .ebusy, info)
  accepted :
    (info.ctrlrs address).opsAreValid = true →
      address ∉ info.ctrlrQue →
      (∀ found ∈ info.ctrlrQue,
        ¬ Share (info.ctrlrs found) (info.ctrlrs address)) →
      irqRegisterCtrlr info address = queueCtrlr info address

/-- The lookup has the one registered controller that serves a number, or none. -/
def LookupRight
    (info : CtrlrInfo Hw)
    (irq : Nat) : Prop :=
  ∃ answer,
    lookupCtrlr info irq = some answer ∧
      ∀ address,
        answer = some address ↔
          address ∈ info.ctrlrQue ∧ Serves info irq address

/-- The test sees the range of a new controller and the registered ones as they are. -/
def RegistersTold
    (info : CtrlrInfo Hw) :
    CtrlrCall Hw → Prop
  | .registerCtrlr address =>
      (info.ctrlrs address).opsAreValid = true →
        address ∉ info.ctrlrQue →
        ∀ found ∈ info.ctrlrQue,
          ToldApart (info.ctrlrs found) (info.ctrlrs address)
  | _ => True

instance
    (info : CtrlrInfo Hw) :
    (call : CtrlrCall Hw) → Decidable (RegistersTold info call)
  | .registerCtrlr _ => inferInstanceAs (Decidable (_ → _ → ∀ _ ∈ _, _))
  | .fillCtrlr _ _ => .isTrue trivial
  | .unregisterCtrlr _ => .isTrue trivial
  | .registerHandler _ _ _ _ _ => .isTrue trivial
  | .unregisterHandler _ _ => .isTrue trivial

/-- The ranges stay apart where neither the records nor the queue change. -/
theorem RangesApart.same
    {info after : CtrlrInfo Hw}
    (apart : RangesApart info)
    (same : SameCtrlrs info after) :
    RangesApart after := by
  obtain ⟨sameCtrlrs, sameQue⟩ := same
  refine ⟨by rw [sameQue]; exact apart.nodup, ?_⟩
  rw [sameQue, sameCtrlrs]
  exact apart.apart

/-- A new controller that shares no number with the registered ones. -/
theorem RangesApart.queue
    {info : CtrlrInfo Hw}
    {address : Nat}
    (apart : RangesApart info)
    (fresh : address ∉ info.ctrlrQue)
    (unshared :
      ∀ found ∈ info.ctrlrQue,
        ¬ Share (info.ctrlrs found) (info.ctrlrs address))
    (nrHandlers : Nat → BitVec 64)
    (hw : Hw) :
    RangesApart
      { info with
        nrHandlers
        ctrlrQue := info.ctrlrQue ++ [address]
        hw } := by
  refine ⟨?_, ?_⟩
  · exact List.nodup_append.mpr
      ⟨apart.nodup, List.nodup_singleton _, by
        intro one member other isNew
        rw [List.mem_singleton.mp isNew]
        rintro rfl
        exact fresh member⟩
  · intro one member other otherMember different
    rcases List.mem_append.mp member with member | isNew
    · rcases List.mem_append.mp otherMember with otherMember | otherIsNew
      · exact apart.apart one member other otherMember different
      · rw [List.mem_singleton.mp otherIsNew]
        exact unshared one member
    · rw [List.mem_singleton.mp isNew]
      rcases List.mem_append.mp otherMember with otherMember | otherIsNew
      · exact fun share => unshared other otherMember share.symm
      · rw [List.mem_singleton.mp isNew, List.mem_singleton.mp otherIsNew]
          at different
        exact absurd rfl different

/-- One call keeps the ranges apart where the test sees them as they are. -/
theorem RangesApart.step
    {info after : CtrlrInfo Hw}
    {call : CtrlrCall Hw}
    (apart : RangesApart info)
    (told : RegistersTold info call)
    (stepped : ctrlrNext rebalancing info call = some after) :
    RangesApart after := by
  cases call with
  | fillCtrlr address ctrlr =>
      simp only [ctrlrNext] at stepped
      split_ifs at stepped with queued
      cases stepped
      refine ⟨apart.nodup, ?_⟩
      intro one member other otherMember different
      have oneKept : one ≠ address := fun same => queued (same ▸ member)
      have otherKept : other ≠ address :=
        fun same => queued (same ▸ otherMember)
      simp only [Function.update_of_ne oneKept,
        Function.update_of_ne otherKept]
      exact apart.apart one member other otherMember different
  | registerCtrlr address =>
      cases stepped
      rcases irqRegisterCtrlr_cases info address with
        kept | ⟨valid, fresh, unmet, hw, queued⟩
      · rw [kept]
        exact apart
      · rw [queued]
        refine apart.queue fresh ?_ _ hw
        intro found member share
        exact unmet found member
          ((toldApart_iff.mp (told valid fresh found member)).mpr share)
  | unregisterCtrlr address =>
      cases stepped
      rcases irqUnregisterCtrlr_cases info address with
        kept | ⟨_, hw, removed⟩
      · rw [kept]
        exact apart
      · rw [removed]
        refine ⟨apart.nodup.erase _, ?_⟩
        intro one member other otherMember
        exact apart.apart one (List.mem_of_mem_erase member) other
          (List.mem_of_mem_erase otherMember)
  | registerHandler irq attr prio handler privateInfo =>
      obtain ⟨⟨result, registeredInfo⟩, registered, shape⟩ :=
        Option.map_eq_some_iff.mp stepped
      cases shape
      exact apart.same (irqRegisterHandler_sameCtrlrs registered)
  | unregisterHandler irq handler =>
      obtain ⟨⟨result, unregisteredInfo⟩, unregistered, shape⟩ :=
        Option.map_eq_some_iff.mp stepped
      cases shape
      exact apart.same (irqUnregisterHandler_sameCtrlrs unregistered)

/-- Where the test sees the ranges as they are, a registration is answered right. -/
theorem registrationRight_of_told
    {info : CtrlrInfo Hw}
    {address : Nat}
    (told : RegistersTold info (.registerCtrlr address)) :
    RegistrationRight info address := by
  refine ⟨?_, ?_⟩
  · rintro valid ⟨found, member, share⟩
    rw [irqRegisterCtrlr, if_neg (by simp [valid])]
    by_cases queued : address ∈ info.ctrlrQue
    · rw [if_pos queued]
    · rw [if_neg queued, if_pos]
      exact ⟨found, member,
        (toldApart_iff.mp (told valid queued found member)).mpr share⟩
  · intro valid fresh unshared
    rw [irqRegisterCtrlr, if_neg (by simp [valid]), if_neg fresh, if_neg]
    rintro ⟨found, member, meet⟩
    exact unshared found member
      ((toldApart_iff.mp (told valid fresh found member)).mp meet)

/-- Among ranges that are apart a number has one controller at most. -/
theorem RangesApart.unique
    {info : CtrlrInfo Hw}
    {irq one other : Nat}
    (apart : RangesApart info)
    (member : one ∈ info.ctrlrQue)
    (serves : Serves info irq one)
    (otherMember : other ∈ info.ctrlrQue)
    (otherServes : Serves info irq other) :
    one = other := by
  by_contra different
  exact apart.apart one member other otherMember different
    ⟨irq, serves, otherServes⟩

/-- The lookup is right exactly where no controller ends at the number first. -/
theorem RangesApart.lookupRight_iff
    {info : CtrlrInfo Hw}
    {irq : Nat}
    (apart : RangesApart info) :
    LookupRight info irq ↔ NoneEndsBefore info irq info.ctrlrQue := by
  rw [← findCtrlr_ne_none_iff]
  constructor
  · rintro ⟨answer, found, -⟩ stopped
    rw [lookupCtrlr, stopped] at found
    cases found
  · intro ends
    obtain ⟨answer, found⟩ := Option.ne_none_iff_exists'.mp ends
    refine ⟨answer, found, ?_⟩
    intro address
    rw [findCtrlr_eq_find found]
    constructor
    · intro first
      exact ⟨List.mem_of_find?_eq_some first, by
        simpa using List.find?_some first⟩
    · rintro ⟨member, serves⟩
      obtain ⟨first, isFirst⟩ : ∃ first,
          info.ctrlrQue.find? (Serves info irq ·) = some first := by
        rw [← Option.isSome_iff_exists, List.find?_isSome]
        exact ⟨address, member, by simpa using serves⟩
      rw [isFirst, apart.unique (List.mem_of_find?_eq_some isFirst)
        (by simpa using List.find?_some isFirst) member serves]

/--
In a run whose registrations the test sees as they are, registered ranges are
apart; the next such registration is answered right, and a lookup is right
exactly where no controller ends at its number first.
-/
theorem rangesApart_of_runs
    {ctrlrs : Nat → Ctrlr Hw}
    {hw : Hw}
    {calls : List (CtrlrCall Hw)}
    {final : CtrlrInfo Hw}
    (run :
      Run (Guarded RegistersTold (StepOf (ctrlrNext rebalancing)))
        (irqInit ctrlrs hw) calls final) :
    RangesApart final ∧
      (∀ address,
        RegistersTold final (.registerCtrlr address) →
          RegistrationRight final address) ∧
      ∀ irq,
        LookupRight final irq ↔
          NoneEndsBefore final irq final.ctrlrQue := by
  have apart : RangesApart final := by
    refine run.invariant ⟨List.nodup_nil, ?_⟩
      fun apart stepped => apart.step stepped.1 stepped.2
    intro one member
    cases member
  exact ⟨apart, fun _ told => registrationRight_of_told told,
    fun _ => apart.lookupRight_iff⟩

end Ranges

/-- A controller of a range whose operations do nothing. -/
def idleCtrlr (minIrq maxIrq : Nat) : Ctrlr Unit where
  minIrq
  maxIrq
  configIrq := fun _ _ _ _ => .ok ()
  irqIsPending := fun _ _ _ => (false, ())
  enableIrq := fun _ _ => ()
  disableIrq := fun _ _ => ()
  priMask := none
  eoi := fun _ _ => ()
  opsAreValid := true
  initCtrlr := fun _ => .ok ()
  finalize := fun _ => ()

/-- The records of the PLIC, the CLINT, and a controller of the PLIC's upper half. -/
def boardCtrlrs : Nat → Ctrlr Unit
  | 0 => idleCtrlr 0 32
  | 1 => idleCtrlr 32 34
  | _ => idleCtrlr 16 32

/-- The controllers at some addresses are registered in turn. -/
def registerBoard
    (addresses : List Nat) : List (CtrlrCall Unit) :=
  addresses.map .registerCtrlr

/-- The CLINT and then the PLIC: no number of theirs is one where a lookup stops. -/
theorem rangesApart_of_runs_clintFirst :
    ∃ final,
      execute
          (guardNext RegistersTold (ctrlrNext (Rebalancing.never Nat)))
          (irqInit boardCtrlrs ()) (registerBoard [1, 0]) =
        some final ∧
      final.ctrlrQue = [1, 0] ∧
      RangesApart final ∧
      LookupRight final 32 := by
  obtain ⟨final, executed⟩ : ∃ final,
      execute
          (guardNext RegistersTold (ctrlrNext (Rebalancing.never Nat)))
          (irqInit boardCtrlrs ()) (registerBoard [1, 0]) =
        some final :=
    Option.isSome_iff_exists.mp (by decide +kernel)
  have facts :
      (execute
          (guardNext RegistersTold (ctrlrNext (Rebalancing.never Nat)))
          (irqInit boardCtrlrs ()) (registerBoard [1, 0])).map
          (fun final => (final.ctrlrQue, lookupCtrlr final 32)) =
        some ([1, 0], some (some 1)) := by
    decide +kernel
  rw [executed, Option.map_some, Option.some.injEq, Prod.mk.injEq] at facts
  obtain ⟨apart, -, lookups⟩ :=
    rangesApart_of_runs (Run.guarded_of_execute executed)
  refine ⟨final, executed, facts.1, apart, (lookups 32).mpr ?_⟩
  rw [← findCtrlr_ne_none_iff, ← lookupCtrlr, facts.2]
  exact Option.some_ne_none _

/--
The upper half of the PLIC's range is registered a second time, and with the
PLIC before the CLINT the lookup of the first number of the CLINT stops.
-/
theorem ranges_not_apart :
    (∃ final,
      Run (StepOf (ctrlrNext (Rebalancing.never Nat)))
          (irqInit boardCtrlrs ()) (registerBoard [0, 2]) final ∧
        final.ctrlrQue = [0, 2] ∧
        ¬ RangesApart final) ∧
      ∃ final,
        Run (StepOf (ctrlrNext (Rebalancing.never Nat)))
            (irqInit boardCtrlrs ()) (registerBoard [0, 1]) final ∧
          lookupCtrlr final 32 = none ∧
          ¬ LookupRight final 32 := by
  refine ⟨⟨_, Run.of_execute rfl, rfl, ?_⟩, _, Run.of_execute rfl, rfl, ?_⟩
  · intro apart
    exact apart.apart 0 (by decide) 2 (by decide) (by decide)
      ⟨16, by decide, by decide⟩
  · rintro ⟨answer, found, -⟩
    cases found

end RiscvWorkshop.IrqCtrlrs
