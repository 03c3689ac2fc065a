import Mathlib
import RiscvWorkshop.ThreadWait

namespace RiscvWorkshop.ThreadWait

/-!
# What is left to do with a thread that is freed

A child is on its parent's queue before its notification is complete and
before it is off its stack.  If the parent frees no child before that, every
wait reaps one child, and no wakeup is taken for another exit.
-/

/-- A child that is off its stack, with nothing left of its notification. -/
def Child.Gone (ch : Child) : Prop :=
  ch.point = .away ∧ ch.notice = .done

instance (ch : Child) : Decidable ch.Gone :=
  inferInstanceAs (Decidable (_ ∧ _))

/-- The child that the parent is about to free. -/
def ParentPoint.toFree : ParentPoint → Option Nat
  | .finished c _ => some c
  | _ => none

/-- When the parent comes to free a child, the child is gone. -/
def LeftBeforeFree (fam : Family) : FamilyAction → Prop
  | .wait => ∀ c ∈ fam.parent.toFree, ∀ ch ∈ fam.children c, ch.Gone
  | .create _ => True
  | .refInc _ => True
  | .refDec _ => True
  | .exit _ _ => True
  | .exitNext _ => True
  | .notify _ => True
  | .deliver => True

instance (fam : Family) : ∀ action, Decidable (LeftBeforeFree fam action)
  | .wait => inferInstanceAs (Decidable (∀ c ∈ _, ∀ ch ∈ _, _))
  | .create _ => inferInstanceAs (Decidable True)
  | .refInc _ => inferInstanceAs (Decidable True)
  | .refDec _ => inferInstanceAs (Decidable True)
  | .exit _ _ => inferInstanceAs (Decidable True)
  | .exitNext _ => inferInstanceAs (Decidable True)
  | .notify _ => inferInstanceAs (Decidable True)
  | .deliver => inferInstanceAs (Decidable True)

/-- The child that the parent has taken off its queue. -/
def ParentPoint.current : ParentPoint → List Nat
  | .taken c _ => [c]
  | .finished c _ => [c]
  | _ => []

/-- The children that were returned by waits with result 0. -/
def Family.reaped (fam : Family) : List Nat :=
  fam.returns.filterMap fun
    | .ok resp => some resp.1
    | .error _ => none

/--
Nobody has anything left to do with a freed child, each wait that returned 0
freed one child, none is freed twice, nothing is taken from an empty queue, and
the parent keeps its last reference.
-/
structure WaitSafe (fam : Family) : Prop where
  untouched : ∀ c ∈ fam.freed,
    ∃ ch, fam.children c = some ch ∧ ch.Gone ∧ ch.held = 0
  elsewhere : ∀ c ∈ fam.freed, c ∉ fam.waiters ∧ c ∉ fam.parent.current
  reaped : fam.reaped = fam.freed
  once : fam.freed.Nodup
  notEmpty : fam.parent ≠ .stray
  parentRefs : 0 < fam.parentRefs

/-! ## The invariant -/

/-- The references of a child that come with the point it is at. -/
def ChildPoint.refs : ChildPoint → Nat
  | .running => 2
  | .referred _ => 3
  | .exiting => 2
  | .dropped => 1
  | .notifying => 0
  | .leaving => 0
  | .away => 0

/-- The child was put on its parent's queue. -/
def Notice.told : Notice → Bool
  | .idle => false
  | .due => false
  | .queued => true
  | .woken => true
  | .done => true

/-- The reference that the parent has to itself while it waits. -/
def ParentPoint.ownRefs : ParentPoint → Nat
  | .outside => 0
  | .entered => 1
  | .asleep => 1
  | .woken _ => 1
  | .taken _ _ => 1
  | .finished _ _ => 0
  | .stray => 1

/-- The children that are dead: queued, taken, or freed. -/
def Family.listed (fam : Family) : List Nat :=
  fam.waiters ++ fam.parent.current ++ fam.freed

/-- The references of a child, and what they say of its notification. -/
structure ChildSound (ch : Child) : Prop where
  refs : ch.refs = ch.point.refs + ch.held
  idle : ch.notice = .idle ↔ ch.refs ≠ 0
  dead : ch.state = .dead ↔ ch.notice.told = true

/-- The invariant of a family. -/
structure FamilySound (fam : Family) : Prop where
  children : ∀ {c ch}, fam.children c = some ch → ChildSound ch
  told : ∀ {c ch},
    fam.children c = some ch → (ch.notice.told = true ↔ c ∈ fam.listed)
  listed : fam.listed.Nodup
  known : ∀ c ∈ fam.listed, fam.children c ≠ none
  gone : ∀ c ∈ fam.freed, ∃ ch, fam.children c = some ch ∧ ch.Gone
  woken : fam.parent = .woken .released → fam.waiters ≠ []
  notEmpty : fam.parent ≠ .stray
  refs :
    fam.parentRefs = 1 + fam.parent.ownRefs + fam.referrers.length
  referrers : ∀ {c ch},
    fam.children c = some ch → ch.notice ≠ .done → c ∈ fam.referrers
  reaped : fam.reaped = fam.freed

section Steps

variable {fam after : Family}
variable {c : Nat}
variable {ch next : Child}

/-- What the invariant gives. -/
theorem FamilySound.waitSafe
    (sound : FamilySound fam) :
    WaitSafe fam := by
  refine ⟨fun c freed => ?_, fun c freed => ?_, sound.reaped, ?_,
    sound.notEmpty, ?_⟩
  · obtain ⟨ch, found, gone⟩ := sound.gone c freed
    have old := sound.children found
    have last : ch.refs = 0 := by
      by_contra some
      have idle := old.idle.mpr some
      rw [gone.2] at idle
      cases idle
    have refs := old.refs
    exact ⟨ch, found, gone, by omega⟩
  · have apart := (List.nodup_append'.mp sound.listed).2.2
    constructor
    · exact fun queued => apart (List.mem_append_left _ queued) freed
    · exact fun taken => apart (List.mem_append_right _ taken) freed
  · exact (List.nodup_append.mp sound.listed).2.1
  · rw [sound.refs]
    omega

/-! ## One child goes on -/

theorem setChild_cases
    {other : Nat}
    {found : Child}
    (there : (fam.setChild c next).children other = some found) :
    (other = c ∧ found = next) ∨
      (other ≠ c ∧ fam.children other = some found) := by
  by_cases same : other = c
  · subst same
    rw [Family.setChild_self, Option.some.injEq] at there
    exact .inl ⟨rfl, there.symm⟩
  · rw [fam.setChild_of_ne same] at there
    exact .inr ⟨same, there⟩

/-- A child that is not freed goes on and stays on the queue or off it. -/
theorem FamilySound.setChild
    (sound : FamilySound fam)
    (found : fam.children c = some ch)
    (unfreed : c ∉ fam.freed)
    (nextSound : ChildSound next)
    (told : next.notice.told = ch.notice.told)
    (done : ch.notice = .done → next.notice = .done) :
    FamilySound (fam.setChild c next) := by
  refine ⟨fun there => ?_, fun there => ?_, sound.listed, fun other listed => ?_,
    fun other freed => ?_, sound.woken, sound.notEmpty, sound.refs,
    fun there notDone => ?_, sound.reaped⟩
  · rcases setChild_cases there with ⟨rfl, rfl⟩ | ⟨-, there⟩
    · exact nextSound
    · exact sound.children there
  · rcases setChild_cases there with ⟨rfl, rfl⟩ | ⟨-, there⟩
    · rw [told]
      exact sound.told found
    · exact sound.told there
  · by_cases same : other = c
    · rw [same, Family.setChild_self]
      exact nofun
    · rw [fam.setChild_of_ne same]
      exact sound.known other listed
  · have different : other ≠ c := fun same => unfreed (same ▸ freed)
    rw [fam.setChild_of_ne different]
    exact sound.gone other freed
  · rcases setChild_cases there with ⟨rfl, rfl⟩ | ⟨-, there⟩
    · exact sound.referrers found fun isDone => notDone (done isDone)
    · exact sound.referrers there notDone

/-- A child that is referred to is not freed. -/
theorem FamilySound.not_freed
    (sound : FamilySound fam)
    (found : fam.children c = some ch)
    (remains : ¬ ch.Gone) :
    c ∉ fam.freed := by
  intro freed
  obtain ⟨other, there, gone⟩ := sound.gone c freed
  rw [found, Option.some.injEq] at there
  exact remains (there ▸ gone)

/-- The rest of a family changes, with the dead children in some other order. -/
theorem FamilySound.move
    (sound : FamilySound fam)
    (children : after.children = fam.children)
    (referrers : after.referrers = fam.referrers)
    (listed : after.listed.Perm fam.listed)
    (gone : ∀ c ∈ after.freed, ∃ ch, fam.children c = some ch ∧ ch.Gone)
    (woken : after.parent = .woken .released → after.waiters ≠ [])
    (notEmpty : after.parent ≠ .stray)
    (refs :
      after.parentRefs = 1 + after.parent.ownRefs + fam.referrers.length)
    (reaped : after.reaped = after.freed) :
    FamilySound after := by
  refine ⟨fun found => ?_, fun found => ?_, ?_, fun c member => ?_, ?_, woken,
    notEmpty, ?_, fun found notDone => ?_, reaped⟩
  · exact sound.children (children ▸ found)
  · rw [listed.mem_iff]
    exact sound.told (children ▸ found)
  · exact listed.nodup_iff.mpr sound.listed
  · rw [children]
    exact sound.known c (listed.mem_iff.mp member)
  · rw [children]
    exact gone
  · rw [referrers]
    exact refs
  · rw [referrers]
    exact sound.referrers (children ▸ found) notDone

/-! ## The steps of a child -/

/-- Giving back a reference makes the notification due with the last one. -/
theorem refDec_cases
    {isLast : Bool}
    (returned : ch.refDec = some (isLast, next)) :
    ∃ refs notice,
      ch.refs = refs + 1 ∧
        next = { ch with refs, notice } ∧
        (isLast = true → refs = 0 ∧ notice = .due) ∧
        (isLast = false → refs ≠ 0 ∧ notice = ch.notice) := by
  rw [Child.refDec] at returned
  split at returned
  · cases returned
  case h_2 refs counted =>
    split at returned
    case isTrue zero =>
      cases returned
      exact ⟨refs, .due, counted, rfl, fun _ => ⟨zero, rfl⟩, nofun⟩
    case isFalse some =>
      cases returned
      exact ⟨refs, ch.notice, counted, rfl, nofun, fun _ => ⟨some, rfl⟩⟩

/-- A child with references is not told of, and not dead. -/
theorem ChildSound.of_refs
    (sound : ChildSound ch)
    (some : ch.refs ≠ 0) :
    ch.notice = .idle ∧ ch.state ≠ .dead := by
  have idle := sound.idle.mpr some
  refine ⟨idle, fun dead => ?_⟩
  have told := sound.dead.mp dead
  rw [idle] at told
  cases told

/-- A child with fewer references, at a point that fits. -/
theorem ChildSound.refDec
    (sound : ChildSound ch)
    {isLast : Bool}
    (returned : ch.refDec = some (isLast, next))
    {state : ThrState}
    (alive : state ≠ .dead)
    {exitcode held : Nat}
    {point : ChildPoint}
    (counted : ch.refs = point.refs + held + 1) :
    ChildSound { next with state, exitcode, point, held } ∧
      next.notice.told = ch.notice.told ∧
      ¬ ch.Gone ∧
      ch.notice ≠ .done := by
  obtain ⟨refs, notice, before, rfl, last, more⟩ := refDec_cases returned
  have idle := (sound.of_refs (before ▸ Nat.succ_ne_zero refs)).1
  have untold : notice.told = false := by
    cases isLast with
    | true => rw [(last rfl).2]; rfl
    | false => rw [(more rfl).2, idle]; rfl
  have notDone : ch.notice ≠ .done := by
    rw [idle]
    exact nofun
  refine ⟨⟨?_, ?_, ?_⟩, ?_, fun gone => notDone gone.2, notDone⟩
  · change refs = point.refs + held
    omega
  · change notice = .idle ↔ refs ≠ 0
    cases isLast with
    | true =>
        rw [(last rfl).1, (last rfl).2]
        simp
    | false =>
        rw [(more rfl).2]
        exact iff_of_true idle (more rfl).1
  · change state = .dead ↔ notice.told = true
    rw [untold]
    exact iff_of_false alive Bool.false_ne_true
  · change notice.told = ch.notice.told
    rw [untold, idle]
    rfl

/-- A child that gives back a reference and goes on. -/
theorem FamilySound.refDec
    (sound : FamilySound fam)
    (found : fam.children c = some ch)
    {isLast : Bool}
    (returned : ch.refDec = some (isLast, next))
    {state : ThrState}
    (alive : state ≠ .dead)
    {exitcode held : Nat}
    {point : ChildPoint}
    (counted : ch.refs = point.refs + held + 1) :
    FamilySound
      (fam.setChild c { next with state, exitcode, point, held }) := by
  obtain ⟨nextSound, told, remains, notDone⟩ :=
    (sound.children found).refDec returned alive counted
  exact sound.setChild found (sound.not_freed found remains) nextSound told
    fun done => absurd done notDone

/-- One of the two releases at the end of `thr_thread_exit`. -/
theorem FamilySound.release
    (sound : FamilySound fam)
    (found : fam.children c = some ch)
    {point : ChildPoint}
    (counted : ch.point.refs = point.refs + 1)
    (released : fam.release c ch point = some after) :
    FamilySound after := by
  have old := sound.children found
  have refs := old.refs
  have some : ch.refs ≠ 0 := by omega
  rw [Family.release] at released
  split at released
  · cases released
  case h_2 next returned =>
    obtain ⟨left, notice, before, rfl, last, -⟩ := refDec_cases returned
    cases released
    refine sound.refDec found returned (old.of_refs some).2 ?_
    change ch.refs = 0 + ch.held + 1
    have := (last rfl).1
    omega
  case h_3 next returned =>
    obtain ⟨left, notice, before, rfl, -⟩ := refDec_cases returned
    cases released
    refine sound.refDec found returned (old.of_refs some).2 ?_
    change ch.refs = point.refs + ch.held + 1
    omega

/-- The next section of `thr_thread_exit`. -/
theorem FamilySound.exitNext
    (sound : FamilySound fam)
    (stepped : fam.exitNext c = some after) :
    FamilySound after := by
  rw [Family.exitNext] at stepped
  split at stepped
  · cases stepped
  case h_2 ch found =>
    have old := sound.children found
    have refs := old.refs
    split at stepped
    case h_1 => cases stepped
    case h_2 ec isPoint =>
      rw [isPoint] at refs
      split at stepped
      case h_1 next returned =>
        obtain ⟨left, notice, before, rfl, -⟩ := refDec_cases returned
        cases stepped
        have alive : ThrState.exit ≠ .dead := nofun
        refine sound.refDec found returned alive ?_
        change ch.refs = 2 + ch.held + 1
        rw [refs, ChildPoint.refs]
        omega
      case h_2 => cases stepped
    case h_3 isPoint =>
      exact sound.release found (by rw [isPoint]; rfl) stepped
    case h_4 isPoint =>
      exact sound.release found (by rw [isPoint]; rfl) stepped
    case h_5 => cases stepped
    case h_6 isPoint =>
      cases stepped
      have remains : ¬ ch.Gone := by
        intro gone
        cases isPoint.symm.trans gone.1
      rw [isPoint] at refs
      exact sound.setChild found (sound.not_freed found remains)
        ⟨refs, old.idle, old.dead⟩ rfl fun done => done
    case h_7 => cases stepped

/-- The start of `thr_thread_exit`. -/
theorem FamilySound.threadExit
    (sound : FamilySound fam)
    {ec : Nat}
    (stepped : fam.threadExit c ec = some after) :
    FamilySound after := by
  rw [Family.threadExit] at stepped
  split at stepped
  · cases stepped
  case h_2 ch found =>
    split at stepped
    case isTrue isPoint =>
      cases stepped
      have old := sound.children found
      have refs := old.refs
      rw [isPoint, ChildPoint.refs] at refs
      have idle := (old.of_refs (by omega)).1
      have remains : ¬ ch.Gone := by
        intro gone
        cases isPoint.symm.trans gone.1
      refine sound.setChild found (sound.not_freed found remains)
        ⟨?_, iff_of_true idle (Nat.succ_ne_zero ch.refs), old.dead⟩ rfl
        fun done => done
      change ch.refs + 1 = 3 + ch.held
      omega
    case isFalse => cases stepped

/-- Another thread takes a reference. -/
theorem FamilySound.refInc
    (sound : FamilySound fam)
    (stepped : fam.refInc c = some after) :
    FamilySound after := by
  rw [Family.refInc] at stepped
  split at stepped
  · cases stepped
  case h_2 ch found =>
    split at stepped
    case isTrue => cases stepped
    case isFalse some =>
      cases stepped
      have old := sound.children found
      have refs := old.refs
      have idle := (old.of_refs some).1
      have remains : ¬ ch.Gone := by
        intro gone
        cases idle.symm.trans gone.2
      refine sound.setChild found (sound.not_freed found remains)
        ⟨?_, iff_of_true idle (Nat.succ_ne_zero ch.refs), old.dead⟩ rfl
        fun done => done
      change ch.refs + 1 = ch.point.refs + (ch.held + 1)
      omega

/-- Another thread gives a reference back. -/
theorem FamilySound.otherRefDec
    (sound : FamilySound fam)
    (stepped : fam.refDec c = some after) :
    FamilySound after := by
  rw [Family.refDec] at stepped
  split at stepped
  · cases stepped
  case h_2 ch found =>
    split at stepped
    case isTrue => cases stepped
    case isFalse some =>
      obtain ⟨⟨isLast, next⟩, returned, same⟩ :=
        Option.map_eq_some_iff.mp stepped
      obtain ⟨left, notice, before, rfl, -⟩ := refDec_cases returned
      cases same
      have old := sound.children found
      have refs := old.refs
      refine sound.refDec found returned (old.of_refs (by omega)).2 ?_
      change ch.refs = ch.point.refs + (ch.held - 1) + 1
      omega

/-- A new child has its references and one to the parent. -/
theorem FamilySound.threadCreate
    (sound : FamilySound fam)
    (stepped : fam.threadCreate c = some after) :
    FamilySound after := by
  rw [Family.threadCreate] at stepped
  split at stepped
  case h_1 isNew isParent =>
    cases stepped
    have unlisted : c ∉ fam.listed := fun listed => sound.known c listed isNew
    have newSound : ChildSound newChild :=
      ⟨rfl, iff_of_true rfl (by decide), iff_of_false nofun nofun⟩
    refine ⟨fun there => ?_, fun there => ?_, sound.listed,
      fun other listed => ?_, fun other freed => ?_, sound.woken,
      sound.notEmpty, ?_, fun there notDone => ?_, sound.reaped⟩
    · rcases setChild_cases there with ⟨rfl, rfl⟩ | ⟨-, there⟩
      · exact newSound
      · exact sound.children there
    · rcases setChild_cases there with ⟨rfl, rfl⟩ | ⟨-, there⟩
      · exact iff_of_false Bool.false_ne_true unlisted
      · exact sound.told there
    · have different : other ≠ c := fun same => unlisted (same ▸ listed)
      exact (fam.setChild_of_ne different newChild) ▸ sound.known other listed
    · have different : other ≠ c := fun same =>
        unlisted (same ▸ List.mem_append_right _ freed)
      obtain ⟨ch, found, gone⟩ := sound.gone other freed
      exact ⟨ch, (fam.setChild_of_ne different newChild).trans found, gone⟩
    · change fam.parentRefs + 1 =
        1 + fam.parent.ownRefs + (fam.referrers.length + 1)
      rw [sound.refs]
      omega
    · rcases setChild_cases there with ⟨rfl, -⟩ | ⟨-, there⟩
      · exact List.mem_cons_self
      · exact List.mem_cons_of_mem c (sound.referrers there notDone)
  case h_2 => cases stepped

/-! ## The notification -/

/-- The child is put on the queue of its parent. -/
theorem FamilySound.queue
    (sound : FamilySound fam)
    (found : fam.children c = some ch)
    (due : ch.notice = .due) :
    FamilySound
      { fam.setChild c { ch with notice := .queued, state := .dead } with
        waiters := fam.waiters ++ [c] } := by
  have old := sound.children found
  have unlisted : c ∉ fam.listed := by
    rw [← sound.told found, due]
    exact Bool.false_ne_true
  have listed :
      (fam.waiters ++ [c] ++ fam.parent.current ++ fam.freed).Perm
        (c :: fam.listed) := by
    simp only [Family.listed, List.append_assoc, List.singleton_append]
    exact List.perm_middle
  have noRefs : ch.refs = 0 := by
    by_contra some
    cases due.symm.trans (old.idle.mpr some)
  have queuedSound :
      ChildSound { ch with notice := .queued, state := .dead } :=
    ⟨old.refs, iff_of_false nofun fun some => some noRefs,
      iff_of_true rfl rfl⟩
  refine ⟨fun there => ?_, fun {other _} there => ?_, ?_,
    fun other member => ?_, fun other freed => ?_,
    fun _ => List.append_ne_nil_of_right_ne_nil _ (List.cons_ne_nil c []),
    sound.notEmpty, sound.refs, fun there notDone => ?_, sound.reaped⟩
  · rcases setChild_cases there with ⟨rfl, rfl⟩ | ⟨-, there⟩
    · exact queuedSound
    · exact sound.children there
  · change _ ↔ other ∈ fam.waiters ++ [c] ++ fam.parent.current ++ fam.freed
    rw [listed.mem_iff, List.mem_cons]
    rcases setChild_cases there with ⟨rfl, rfl⟩ | ⟨different, there⟩
    · exact iff_of_true rfl (.inl rfl)
    · rw [or_iff_right different]
      exact sound.told there
  · exact listed.nodup_iff.mpr (List.nodup_cons.mpr ⟨unlisted, sound.listed⟩)
  · have member := listed.mem_iff.mp member
    change (fam.setChild c _).children other ≠ none
    by_cases same : other = c
    · rw [same, Family.setChild_self]
      exact nofun
    · rw [fam.setChild_of_ne same]
      exact sound.known other ((List.mem_cons.mp member).resolve_left same)
  · have different : other ≠ c := fun same =>
      unlisted (same ▸ List.mem_append_right _ freed)
    obtain ⟨ch, found, gone⟩ := sound.gone other freed
    exact ⟨ch, (fam.setChild_of_ne different _).trans found, gone⟩
  · rcases setChild_cases there with ⟨rfl, rfl⟩ | ⟨-, there⟩
    · refine sound.referrers found ?_
      rw [due]
      exact nofun
    · exact sound.referrers there notDone

theorem current_asleep :
    ParentPoint.asleep.current = [] :=
  rfl

/-- A parent that does not sleep is not woken. -/
theorem wake_of_not_asleep
    {parent : ParentPoint}
    {reason : WqueReason}
    (awake : parent ≠ .asleep) :
    parent.wake reason = parent := by
  cases parent with
  | asleep => exact absurd rfl awake
  | _ => rfl

/-- A child that was told of is on the queue if the parent sleeps. -/
theorem FamilySound.queued_of_asleep
    (sound : FamilySound fam)
    (found : fam.children c = some ch)
    (told : ch.notice.told = true)
    (remains : ¬ ch.Gone)
    (asleep : fam.parent = .asleep) :
    c ∈ fam.waiters := by
  have listed := (sound.told found).mp told
  rw [Family.listed, asleep, current_asleep, List.append_nil,
    List.mem_append] at listed
  exact listed.resolve_right (sound.not_freed found remains)

/-- The parent is woken for a child that is on its queue. -/
theorem FamilySound.wake
    (sound : FamilySound fam)
    {reason : WqueReason}
    (some :
      reason = .released → fam.parent = .asleep → fam.waiters ≠ []) :
    FamilySound { fam with parent := fam.parent.wake reason } := by
  by_cases asleep : fam.parent = .asleep
  · have refs := sound.refs
    rw [asleep] at refs
    have listed :
        (fam.waiters ++ [] ++ fam.freed).Perm
          (fam.waiters ++ fam.parent.current ++ fam.freed) := by
      rw [asleep, current_asleep]
    rw [asleep]
    refine sound.move rfl rfl listed sound.gone (fun woken => ?_) nofun refs
      sound.reaped
    simp only [ParentPoint.wake, ParentPoint.woken.injEq] at woken
    exact some woken asleep
  · rw [wake_of_not_asleep asleep]
    exact sound

/-- The child gives back its reference to the parent. -/
theorem FamilySound.unrefer
    (sound : FamilySound fam)
    (found : fam.children c = some ch)
    (done : ch.notice = .done)
    (member : c ∈ fam.referrers) :
    FamilySound
      { fam with
        parentRefs := fam.parentRefs - 1
        referrers := fam.referrers.erase c } := by
  refine ⟨sound.children, sound.told, sound.listed, sound.known, sound.gone,
    sound.woken, sound.notEmpty, ?_, fun {other _} there notDone => ?_,
    sound.reaped⟩
  · have shorter := List.length_erase_add_one member
    change fam.parentRefs - 1 =
      1 + fam.parent.ownRefs + (fam.referrers.erase c).length
    rw [sound.refs]
    omega
  · have different : other ≠ c := by
      rintro rfl
      rw [found, Option.some.injEq] at there
      exact notDone (there ▸ done)
    exact (List.mem_erase_of_ne different).mpr (sound.referrers there notDone)

/-- The next section of `notify_parent_child_exit`. -/
theorem FamilySound.notify
    (sound : FamilySound fam)
    (stepped : fam.notifyParentChildExit c = some after) :
    FamilySound after := by
  rw [Family.notifyParentChildExit] at stepped
  split at stepped
  · cases stepped
  case h_2 ch found =>
    have old := sound.children found
    have notGone {notice : Notice}
        (isNotice : ch.notice = notice)
        (early : notice ≠ .done) :
        ¬ ch.Gone :=
      fun gone => early (isNotice.symm.trans gone.2)
    split at stepped
    case h_1 => cases stepped
    case h_2 due =>
      cases stepped
      exact sound.queue found due
    case h_3 queued =>
      cases stepped
      have remains := notGone queued nofun
      have told : ch.notice.told = true := by rw [queued]; rfl
      have wokenSound : ChildSound { ch with notice := .woken } := by
        refine ⟨old.refs, ?_, ?_⟩
        · rw [← old.idle, queued]
          exact iff_of_false nofun nofun
        · exact iff_of_true (old.dead.mpr told) rfl
      have went :=
        sound.setChild found (sound.not_freed found remains) wokenSound
          (by rw [queued]; rfl) fun done => absurd (queued.symm.trans done) nofun
      exact went.wake fun _ asleep => List.ne_nil_of_mem
        (sound.queued_of_asleep found told remains asleep)
    case h_4 woken =>
      split at stepped
      case isTrue => cases stepped
      case isFalse =>
        cases stepped
        have remains := notGone woken nofun
        have told : ch.notice.told = true := by rw [woken]; rfl
        have doneSound :
            ChildSound
              { ch with
                notice := .done
                point :=
                  if ch.point = .notifying then .leaving else ch.point } := by
          refine ⟨?_, ?_, ?_⟩
          · change ch.refs =
              (if ch.point = .notifying then
                ChildPoint.leaving
              else
                ch.point).refs + ch.held
            split
            case isTrue isPoint =>
              have refs := old.refs
              rw [isPoint] at refs
              exact refs
            case isFalse => exact old.refs
          · rw [← old.idle, woken]
            exact iff_of_false nofun nofun
          · exact iff_of_true (old.dead.mpr told) rfl
        have went :=
          sound.setChild found (sound.not_freed found remains) doneSound
            (by rw [woken]; rfl) fun _ => rfl
        have member : c ∈ fam.referrers := by
          refine sound.referrers found ?_
          rw [woken]
          exact nofun
        exact went.unrefer (fam.setChild_self ..) rfl member
    case h_5 => cases stepped

/-! ## The steps of the parent -/

/-- The parent takes a child when there is one. -/
theorem FamilySound.take
    (sound : FamilySound fam)
    (queued : fam.waiters ≠ [])
    (idle : fam.parent.current = [])
    (own : fam.parent.ownRefs = 1)
    (stepped : fam.take = some after) :
    FamilySound after := by
  rw [Family.take] at stepped
  split at stepped
  case h_1 empty => exact absurd empty queued
  case h_2 c rest queue =>
    split at stepped
    · cases stepped
    case h_2 ch found =>
      split at stepped
      case isTrue =>
        cases stepped
        have refs := sound.refs
        rw [own] at refs
        refine sound.move rfl rfl ?_ sound.gone nofun nofun refs sound.reaped
        change (rest ++ [c] ++ fam.freed).Perm
          (fam.waiters ++ fam.parent.current ++ fam.freed)
        rw [queue, idle, List.append_nil]
        exact (List.perm_append_singleton c rest).append_right fam.freed
      case isFalse => cases stepped

/-- A wait that returned 0 adds the child to those that were reaped. -/
theorem reaped_append
    (fam : Family)
    (c exitcode : Nat) :
    { fam with
        returns := fam.returns ++ [.ok (c, exitcode)] : Family }.reaped =
      fam.reaped ++ [c] := by
  simp only [Family.reaped, List.filterMap_append, List.filterMap_cons,
    List.filterMap_nil]

/-- The parent frees the child that it took. -/
theorem FamilySound.reap
    (sound : FamilySound fam)
    {exitcode : Nat}
    (isPoint : fam.parent = .finished c exitcode)
    (found : fam.children c = some ch)
    (gone : ch.Gone)
    (stepped : fam.reap c exitcode = some after) :
    FamilySound after := by
  have dead : ch.state = .dead := by
    rw [(sound.children found).dead, gone.2]
    rfl
  have refs := sound.refs
  rw [isPoint] at refs
  simp only [Family.reap, found, if_pos dead] at stepped
  split at stepped
  case isTrue =>
    cases stepped
    refine sound.move rfl rfl ?_ (fun other freed => ?_) nofun nofun refs ?_
    · change (fam.waiters ++ [] ++ (fam.freed ++ [c])).Perm
        (fam.waiters ++ fam.parent.current ++ fam.freed)
      rw [isPoint, ParentPoint.current, List.append_nil, List.append_assoc]
      exact (List.perm_append_comm ..).append_left fam.waiters
    · rcases List.mem_append.mp freed with before | isNew
      · exact sound.gone other before
      · rw [List.mem_singleton.mp isNew]
        exact ⟨ch, found, gone⟩
    · exact (reaped_append fam c exitcode).trans (by rw [sound.reaped])
  case isFalse => cases stepped

/-- The next section of `thr_thread_wait`. -/
theorem FamilySound.threadWait
    (sound : FamilySound fam)
    (left : LeftBeforeFree fam .wait)
    (stepped : fam.threadWait = some after) :
    FamilySound after := by
  have refs := sound.refs
  rw [Family.threadWait] at stepped
  split at stepped
  case h_1 isPoint =>
    rw [isPoint] at refs
    split at stepped
    case isTrue => cases stepped
    case isFalse =>
      cases stepped
      refine sound.move rfl rfl ?_ sound.gone nofun nofun ?_ sound.reaped
      · rw [Family.listed, Family.listed, isPoint]
        exact List.Perm.refl _
      · change fam.parentRefs + 1 = 1 + 1 + fam.referrers.length
        rw [refs, ParentPoint.ownRefs]
        omega
  case h_2 isPoint =>
    rw [isPoint] at refs
    split at stepped
    case isTrue =>
      cases stepped
      refine sound.move rfl rfl ?_ sound.gone nofun nofun refs sound.reaped
      rw [Family.listed, Family.listed, isPoint]
      exact List.Perm.refl _
    case isFalse queued =>
      exact sound.take queued (by rw [isPoint]; rfl) (by rw [isPoint]; rfl)
        stepped
  case h_3 => cases stepped
  case h_4 isPoint =>
    rw [isPoint] at refs
    cases stepped
    refine sound.move rfl rfl ?_ sound.gone nofun nofun ?_ ?_
    · rw [Family.listed, Family.listed, isPoint]
      exact List.Perm.refl _
    · change fam.parentRefs - 1 = 1 + 0 + fam.referrers.length
      rw [refs, ParentPoint.ownRefs]
      omega
    · simp only [Family.reaped, List.filterMap_append, List.filterMap_cons,
        List.filterMap_nil, List.append_nil]
      exact sound.reaped
  case h_5 isPoint =>
    exact sound.take (sound.woken isPoint) (by rw [isPoint]; rfl)
      (by rw [isPoint]; rfl) stepped
  case h_6 => cases stepped
  case h_7 c exitcode isPoint =>
    rw [isPoint] at refs
    cases stepped
    refine sound.move rfl rfl ?_ sound.gone nofun nofun ?_ sound.reaped
    · rw [Family.listed, Family.listed, isPoint]
      exact List.Perm.refl _
    · change fam.parentRefs - 1 = 1 + 0 + fam.referrers.length
      rw [refs, ParentPoint.ownRefs]
      omega
  case h_8 c exitcode isPoint =>
    have toFree : fam.parent.toFree = some c := by rw [isPoint]; rfl
    cases found : fam.children c with
    | none =>
        simp only [Family.reap, found, reduceCtorEq] at stepped
    | some ch =>
        exact sound.reap isPoint found (left c toFree ch found) stepped
  case h_9 => cases stepped

/-- Every step that frees no child too early keeps the invariant. -/
theorem FamilySound.step
    {action : FamilyAction}
    (sound : FamilySound fam)
    (left : LeftBeforeFree fam action)
    (stepped : familyNext fam action = some after) :
    FamilySound after := by
  cases action with
  | create c => exact sound.threadCreate stepped
  | refInc c => exact sound.refInc stepped
  | refDec c => exact sound.otherRefDec stepped
  | exit c ec => exact sound.threadExit stepped
  | exitNext c => exact sound.exitNext stepped
  | notify c => exact sound.notify stepped
  | wait => exact sound.threadWait left stepped
  | deliver =>
      cases stepped
      exact sound.wake nofun

/-- Freeing a child too early leaves something to do with a freed thread. -/
theorem not_waitSafe_of_early
    {action : FamilyAction}
    (early : ¬ LeftBeforeFree fam action)
    (sound : FamilySound fam)
    (stepped : familyNext fam action = some after) :
    ¬ WaitSafe after := by
  cases action with
  | wait =>
      simp only [LeftBeforeFree, Option.mem_def, not_forall] at early
      obtain ⟨c, toFree, ch, found, remains⟩ := early
      cases isPoint : fam.parent with
      | finished taken exitcode =>
          rw [isPoint, ParentPoint.toFree, Option.some.injEq] at toFree
          subst toFree
          have listed : taken ∈ fam.listed := by
            rw [Family.listed, isPoint]
            exact List.mem_append_left _
              (List.mem_append_right _ (List.mem_singleton_self taken))
          have dead : ch.state = .dead :=
            (sound.children found).dead.mpr ((sound.told found).mpr listed)
          simp only [familyNext, Family.threadWait, isPoint, Family.reap, found,
            if_pos dead] at stepped
          split at stepped
          case isTrue =>
            cases stepped
            intro safe
            obtain ⟨other, there, gone, -⟩ :=
              safe.untouched taken
                (List.mem_append_right _ (List.mem_singleton_self taken))
            change fam.children taken = some other at there
            rw [found, Option.some.injEq] at there
            exact remains (there ▸ gone)
          case isFalse => cases stepped
      | outside => rw [isPoint] at toFree; cases toFree
      | entered => rw [isPoint] at toFree; cases toFree
      | asleep => rw [isPoint] at toFree; cases toFree
      | woken => rw [isPoint] at toFree; cases toFree
      | taken => rw [isPoint] at toFree; cases toFree
      | stray => rw [isPoint] at toFree; cases toFree
  | create => exact absurd trivial early
  | refInc => exact absurd trivial early
  | refDec => exact absurd trivial early
  | exit => exact absurd trivial early
  | exitNext => exact absurd trivial early
  | notify => exact absurd trivial early
  | deliver => exact absurd trivial early

/-- A parent without children. -/
theorem childless_sound : FamilySound childless :=
  ⟨nofun, nofun, List.nodup_nil, nofun, nofun, nofun, nofun, rfl, nofun, rfl⟩

/--
In every run where no child is freed before it is gone, waits are safe; and the
next step keeps this exactly when it frees no child before that either.
-/
theorem waits_of_runs
    {actions : List FamilyAction}
    (run :
      Run (Guarded LeftBeforeFree (StepOf familyNext)) childless actions
        fam) :
    WaitSafe fam ∧
      ∀ action after,
        familyNext fam action = some after →
        (WaitSafe after ↔ LeftBeforeFree fam action) := by
  have sound : FamilySound fam :=
    run.invariant childless_sound fun sound stepped =>
      sound.step stepped.1 stepped.2
  refine ⟨sound.waitSafe, fun action after stepped => ?_⟩
  refine ⟨fun safe => ?_, fun left => (sound.step left stepped).waitSafe⟩
  by_contra early
  exact not_waitSafe_of_early early sound stepped safe

end Steps

/-! ## Two runs -/

/--
The parent sleeps and is woken by one of two children; another thread gives
back the last reference to the other child.
-/
def orderlyActions : List FamilyAction :=
  [.create 1, .create 2, .wait, .wait, .refInc 2, .exit 1 7, .exitNext 1,
    .exitNext 1, .exitNext 1, .notify 1, .notify 1, .notify 1, .exitNext 1,
    .exit 2 0, .exitNext 2, .exitNext 2, .exitNext 2, .exitNext 2, .wait,
    .wait, .wait, .refDec 2, .notify 2, .notify 2, .notify 2, .wait, .wait,
    .wait, .wait]

/-- Both children are reaped. -/
theorem waits_of_runs_orderly :
    ∃ fam,
      execute (guardNext LeftBeforeFree familyNext) childless
          orderlyActions = some fam ∧
        fam.freed = [1, 2] ∧
        fam.parentRefs = 1 ∧
        WaitSafe fam := by
  obtain ⟨fam, executed⟩ : ∃ fam,
      execute (guardNext LeftBeforeFree familyNext) childless
        orderlyActions = some fam :=
    Option.isSome_iff_exists.mp (by decide +kernel)
  have facts :
      (execute (guardNext LeftBeforeFree familyNext) childless
        orderlyActions).map (fun fam => (fam.freed, fam.parentRefs)) =
        some ([1, 2], 1) := by
    decide +kernel
  rw [executed, Option.map_some, Option.some.injEq] at facts
  simp only [Prod.mk.injEq] at facts
  exact ⟨fam, executed, facts.1, facts.2,
    (waits_of_runs (Run.guarded_of_execute executed)).1⟩

/-- A child is on its parent's queue, and the parent reaps it at once. -/
def earlyActions : List FamilyAction :=
  [.create 1, .exit 1 0, .exitNext 1, .exitNext 1, .exitNext 1, .notify 1,
    .wait, .wait, .wait, .wait]

/--
The child is freed on its own stack before it wakes the parent.  If the parent
sleeps again by then, it takes a child from its empty queue.
-/
theorem child_freed_on_its_stack :
    ((execute familyNext childless earlyActions).map
      fun fam =>
        (fam.freed, (fam.children 1).map fun ch => (ch.point, ch.notice))) =
      some ([1], some (.notifying, .queued)) ∧
    ((execute familyNext childless
        (earlyActions ++ [.wait, .wait, .notify 1, .wait])).map
      (·.parent)) = some .stray := by
  decide +kernel

end RiscvWorkshop.ThreadWait
