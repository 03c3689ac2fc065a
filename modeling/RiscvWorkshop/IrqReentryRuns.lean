import Mathlib
import RiscvWorkshop.IrqReferences
import RiscvWorkshop.Plic

namespace RiscvWorkshop.Irq

open SearchTree

/-!
# Registrations, references and masks under any interleaving of handlers

A line has one reference for its handlers and three for each dispatch under
way.  The handlers of a line agree on trigger and priority, and an exclusive
one is alone.  Every step keeps this, whichever handlers are running.
-/

/-! ## The invariant -/

/-- The handlers of a line are those recorded, and agree on trigger and priority. -/
structure Agreed
    (line : IrqLine)
    (asked : List Registration) : Prop where
  recorded : line.handlers = asked.map (·.ent)
  trigger : ∀ registration ∈ asked,
    registration.attr &&& irqAttrTriggerMask = line.attr &&& irqAttrTriggerMask
  prio : ∀ registration ∈ asked, registration.prio = line.prio
  exclusive : ∀ registration ∈ asked,
    registration.attr &&& irqAttrExclusive ≠ 0 →
      line.attr &&& irqAttrExclusive ≠ 0
  single : line.attr &&& irqAttrExclusive ≠ 0 → asked.length ≤ 1

/-- The reference that a line has for its handlers. -/
def IrqLine.ownRefs (line : IrqLine) : Nat :=
  if line.handlers = [] then 0 else 1

/-- The invariant of the steps. -/
structure SystemSound
    {Hw : Type}
    (masked : Hw → Nat → Prop)
    (ctrlrQue : List (IrqCtrlr Hw))
    (system : IrqSystem Hw) : Prop where
  tree : TreeSound masked ctrlrQue system.info
  agreed : ∀ irq, Agreed (system.info.irqs irq) (system.asked irq)
  refs : ∀ irq,
    (system.info.irqs irq).refs =
      (system.info.irqs irq).ownRefs + 3 * system.underWay irq
  frames : ∀ frame ∈ system.frames, frame.ctrlr < ctrlrQue.length

/-- What a call that returns an error leaves as it is. -/
structure Unchanged
    {Hw : Type}
    (masked : Hw → Nat → Prop)
    (system after : IrqSystem Hw) : Prop where
  lines : after.info.prioQue.toList = system.info.prioQue.toList
  irqs : after.info.irqs = system.info.irqs
  frames : after.frames = system.frames
  asked : after.asked = system.asked
  masks : ∀ irq, masked system.info.hw irq → masked after.info.hw irq

/--
The condition on a step.  A line without handlers is registered again only
once its dispatches are over, a handler is taken off only a line that had one
before, and a handler that takes itself off handles the interrupt.
-/
def StepMeets
    {Hw : Type}
    {masked : Hw → Nat → Prop}
    (system : IrqSystem Hw) : IrqAction masked → Prop
  | .register irq _ _ _ _ =>
      system.info.Registered irq ∨ system.underWay irq = 0
  | .unregister irq _ =>
      irq < nrIrqs → (system.info.irqs irq).ctrlr ≠ none
  | .handlerReturns index handled =>
      handled = true ∨ ∀ frame ∈ system.frames[index]?, frame.place ≠ none
  | .interrupt => True
  | .device _ => True

instance
    {Hw : Type}
    {masked : Hw → Nat → Prop}
    (system : IrqSystem Hw) :
    ∀ action : IrqAction masked, Decidable (StepMeets system action)
  | .register _ _ _ _ _ => inferInstanceAs (Decidable (_ ∨ _ = _))
  | .unregister _ _ => inferInstanceAs (Decidable (_ → _ ≠ _))
  | .handlerReturns index _ =>
      inferInstanceAs
        (Decidable
          (_ = _ ∨ ∀ frame ∈ system.frames[index]?, frame.place ≠ none))
  | .interrupt => inferInstanceAs (Decidable True)
  | .device _ => inferInstanceAs (Decidable True)

section Invariant

variable {Hw : Type}
variable (rebalancing : Rebalancing Nat)
variable {masked : Hw → Nat → Prop}
variable {ctrlrQue : List (IrqCtrlr Hw)}
variable {system after : IrqSystem Hw}

theorem Agreed.withRefs
    {line : IrqLine}
    {asked : List Registration}
    (agreed : Agreed line asked)
    (refs : Nat) :
    Agreed { line with refs } asked :=
  ⟨agreed.recorded, agreed.trigger, agreed.prio, agreed.exclusive,
    agreed.single⟩

/-- A handler joins those it agrees with, where none is exclusive. -/
theorem Agreed.add
    {line : IrqLine}
    {asked : List Registration}
    (agreed : Agreed line asked)
    (new : Registration)
    (trigger :
      line.attr &&& irqAttrTriggerMask = new.attr &&& irqAttrTriggerMask)
    (prio : line.prio = new.prio)
    (lineShared : line.attr &&& irqAttrExclusive = 0)
    (newShared : new.attr &&& irqAttrExclusive = 0) :
    Agreed { line with handlers := line.handlers ++ [new.ent] }
      (asked ++ [new]) := by
  have either : ∀ registration ∈ asked ++ [new],
      registration ∈ asked ∨ registration = new := by
    simp
  constructor
  case recorded =>
    rw [List.map_append, ← agreed.recorded]
    rfl
  case trigger =>
    intro registration member
    rcases either registration member with old | rfl
    · exact agreed.trigger registration old
    · exact trigger.symm
  case prio =>
    intro registration member
    rcases either registration member with old | rfl
    · exact agreed.prio registration old
    · exact prio.symm
  case exclusive =>
    intro registration member isExclusive
    rcases either registration member with old | rfl
    · exact agreed.exclusive registration old isExclusive
    · exact absurd newShared isExclusive
  case single =>
    intro isExclusive
    exact absurd lineShared isExclusive

/-- The first handler of a line is what the line agrees with. -/
theorem Agreed.first
    (new : Registration)
    (refs : Nat)
    (ctrlr : Option Nat) :
    Agreed
      { refs, prio := new.prio, attr := new.attr, handlers := [new.ent], ctrlr }
      [new] := by
  constructor <;> simp

/-- The entry found first is the one that leaves the recorded entries. -/
theorem map_eraseP_find
    {asked : List Registration}
    {handler : Nat}
    {ent : IrqHandlerEnt}
    (found :
      (asked.map (·.ent)).find? (·.handler = handler) = some ent) :
    (asked.map (·.ent)).erase ent =
      (asked.eraseP (·.ent.handler = handler)).map (·.ent) := by
  induction asked with
  | nil =>
      cases found
  | cons first rest inductionHypothesis =>
      by_cases isFirst : first.ent.handler = handler
      · rw [List.map_cons, List.find?_cons_of_pos (by simpa using isFirst)]
          at found
        cases found
        rw [List.map_cons, List.erase_cons_head,
          List.eraseP_cons_of_pos (by simpa using isFirst)]
      · rw [List.map_cons, List.find?_cons_of_neg (by simpa using isFirst)]
          at found
        have different : first.ent ≠ ent := by
          rintro rfl
          exact isFirst (by simpa using List.find?_some found)
        rw [List.map_cons, List.erase_cons_tail (by simpa using different),
          List.eraseP_cons_of_neg (by simpa using isFirst), List.map_cons,
          inductionHypothesis found]

/-- The handlers that stay agree as before. -/
theorem Agreed.takeOff
    {line : IrqLine}
    {asked : List Registration}
    (agreed : Agreed line asked)
    {handler : Nat}
    {ent : IrqHandlerEnt}
    (found : line.handlers.find? (·.handler = handler) = some ent)
    (refs : Nat) :
    Agreed { line with handlers := line.handlers.erase ent, refs }
      (asked.eraseP (·.ent.handler = handler)) := by
  have stays : ∀ registration ∈ asked.eraseP (·.ent.handler = handler),
      registration ∈ asked :=
    fun _ => List.mem_of_mem_eraseP
  refine ⟨?_, fun registration member => ?_, fun registration member => ?_,
    fun registration member => ?_, fun isExclusive => ?_⟩
  · rw [agreed.recorded] at found ⊢
    exact map_eraseP_find found
  · exact agreed.trigger registration (stays registration member)
  · exact agreed.prio registration (stays registration member)
  · exact agreed.exclusive registration (stays registration member)
  · exact List.length_eraseP_le.trans (agreed.single isExclusive)

/-! ## Steps -/

/-- A step that changes one line keeps the invariant if it does so there. -/
theorem SystemSound.of_line
    (sound : SystemSound masked ctrlrQue system)
    (irq : Nat)
    (tree : TreeSound masked ctrlrQue after.info)
    (irqs : ∀ other, other ≠ irq →
      after.info.irqs other = system.info.irqs other)
    (asked : ∀ other, other ≠ irq → after.asked other = system.asked other)
    (calls : ∀ other, other ≠ irq →
      after.underWay other = system.underWay other)
    (agreed : Agreed (after.info.irqs irq) (after.asked irq))
    (refs :
      (after.info.irqs irq).refs =
        (after.info.irqs irq).ownRefs + 3 * after.underWay irq)
    (frames : ∀ frame ∈ after.frames, frame.ctrlr < ctrlrQue.length) :
    SystemSound masked ctrlrQue after := by
  refine ⟨tree, fun other => ?_, fun other => ?_, frames⟩
  · by_cases same : other = irq
    · exact same ▸ agreed
    · rw [irqs other same, asked other same]
      exact sound.agreed other
  · by_cases same : other = irq
    · exact same ▸ refs
    · rw [irqs other same, calls other same]
      exact sound.refs other

/-- A line with a handler or a dispatch has a reference. -/
theorem SystemSound.referred_iff
    (sound : SystemSound masked ctrlrQue system)
    (irq : Nat) :
    (system.info.irqs irq).refs ≠ 0 ↔
      system.info.Registered irq ∨ system.underWay irq ≠ 0 := by
  rw [sound.refs irq, IrqLine.ownRefs, IrqInfo.Registered]
  by_cases empty : (system.info.irqs irq).handlers = []
  · simp [empty]
  · simp [empty]

/-- The controllers of a line that enters the tree are those of the queue. -/
theorem TreeSound.enter
    {info after : IrqInfo Hw}
    {irq attr prio place : Nat}
    {before behind : List Nat}
    {ctrlr : IrqCtrlr Hw}
    (laws : ∀ ctrlr ∈ ctrlrQue, MaskLaws masked ctrlr)
    (sound : TreeSound masked ctrlrQue info)
    (free : (info.irqs irq).refs = 0)
    (found : info.ctrlrQue[place]? = some ctrlr)
    (configured : ctrlr.configIrq info.hw irq attr prio = .ok after.hw)
    (comes : Entered info irq prio before behind after) :
    TreeSound masked ctrlrQue after := by
  have absent : irq ∉ before ++ behind := fun member =>
    (sound.listed irq).mp (comes.oldLines ▸ member) free
  have middle : (before ++ irq :: behind).Perm (irq :: (before ++ behind)) :=
    List.perm_middle
  have referred : (after.irqs irq).refs ≠ 0 := by
    rw [comes.refs]
    exact Nat.one_ne_zero
  have stays : ∀ other, (after.irqs other).refs ≠ 0 →
      other = irq ∨ other ≠ irq ∧ (info.irqs other).refs ≠ 0 := by
    intro other held
    by_cases same : other = irq
    · exact .inl same
    · exact .inr ⟨same, comes.others other same ▸ held⟩
  refine ⟨comes.ctrlrQue.trans sound.ctrlrQue, ?_, fun other => ?_,
    fun other held => ?_, fun other held => ?_, fun other freeNow => ?_⟩
  · rw [comes.lines, middle.nodup_iff, List.nodup_cons]
    exact ⟨absent, comes.oldLines ▸ sound.nodup⟩
  · rw [comes.lines, middle.mem_iff, List.mem_cons, ← comes.oldLines,
      sound.listed]
    by_cases same : other = irq
    · subst same
      exact ⟨fun _ => referred, fun _ => .inl rfl⟩
    · rw [comes.others other same]
      exact or_iff_right same
  · rcases stays other held with same | ⟨_, heldBefore⟩
    · exact same ▸ comes.small
    · exact sound.small other heldBefore
  · rcases stays other held with same | ⟨different, heldBefore⟩
    · exact same ▸ comes.ctrlr
    · rw [ctrlrOf_congr (comes.others other different) comes.ctrlrQue]
      exact sound.ctrlr other heldBefore
  · have different : other ≠ irq := fun same => referred (same ▸ freeNow)
    rw [comes.others other different] at freeNow
    exact (laws ctrlr (sound.ctrlr_at found)).configIrq info.hw irq attr prio
      after.hw other configured different (sound.masked other freeNow)

/-- A refused registration leaves the tree and its lines. -/
theorem TreeSound.refuse
    {info after : IrqInfo Hw}
    (sound : TreeSound masked ctrlrQue info)
    (lines : after.prioQue.toList = info.prioQue.toList)
    (sameQue : after.ctrlrQue = info.ctrlrQue)
    (irqs : after.irqs = info.irqs)
    (hw : after.hw = info.hw) :
    TreeSound masked ctrlrQue after := by
  refine ⟨sameQue.trans sound.ctrlrQue, lines ▸ sound.nodup, fun line => ?_,
    fun line => ?_, fun line => ?_, fun line => ?_⟩
  · rw [lines, irqs]
    exact sound.listed line
  · rw [irqs]
    exact sound.small line
  · rw [irqs, ctrlrOf_congr (congrFun irqs line) sameQue]
    exact sound.ctrlr line
  · rw [irqs, hw]
    exact sound.masked line

/-- A registration keeps the invariant; a refused one changes nothing. -/
theorem SystemSound.register
    (laws : ∀ ctrlr ∈ ctrlrQue, MaskLaws masked ctrlr)
    (sound : SystemSound masked ctrlrQue system)
    {irq attr prio handler privateInfo : Nat}
    {result : Except Errno Unit}
    (met : system.info.Registered irq ∨ system.underWay irq = 0)
    (stepped :
      irqStep rebalancing system
          (.register irq attr prio handler privateInfo : IrqAction masked) =
        some (result, after)) :
    SystemSound masked ctrlrQue after ∧
      ∀ code, result = .error code → Unchanged masked system after := by
  have free : ¬ system.info.Registered irq →
      (system.info.irqs irq).refs = 0 := by
    intro fresh
    by_contra referred
    rcases (sound.referred_iff irq).mp referred with registered | busy
    · exact fresh registered
    · exact busy (met.resolve_left fresh)
  have absent : ¬ system.info.Registered irq →
      irq ∉ system.info.prioQue.toList :=
    fun fresh member => (sound.tree.listed irq).mp member (free fresh)
  cases called :
      irqRegisterHandler rebalancing system.info irq attr prio handler
        privateInfo with
  | none =>
      simp only [irqStep, called] at stepped
      cases stepped
  | some outcome =>
      obtain ⟨answer, info⟩ := outcome
      cases irqRegisterHandler_registering rebalancing absent called with
      | refused lines sameQue irqs hw =>
          simp only [irqStep, called] at stepped
          cases stepped
          constructor
          · refine sound.of_line irq (sound.tree.refuse lines sameQue irqs hw)
              (fun other _ => congrFun irqs other) (fun _ _ => rfl)
              (fun _ _ => rfl) ?_ ?_ sound.frames
            · rw [irqs]
              exact sound.agreed irq
            · rw [irqs]
              exact sound.refs irq
          · refine fun _ _ => ⟨lines, irqs, rfl, rfl, fun line => ?_⟩
            rw [hw]
            exact id
      | added small registered trigger samePrio lineShared handlerShared =>
          simp only [irqStep, called] at stepped
          cases stepped
          have referred := (sound.referred_iff irq).mpr (.inl registered)
          have grown :=
            (sound.agreed irq).add ⟨⟨handler, privateInfo⟩, attr, prio⟩
              trigger samePrio lineShared handlerShared
          have refs := sound.refs irq
          rw [IrqLine.ownRefs, if_neg registered] at refs
          refine ⟨sound.of_line irq (sound.tree.setLine referred referred rfl)
            (fun _ different => Function.update_of_ne different _ _)
            (fun _ different => Function.update_of_ne different _ _)
            (fun _ _ => rfl) ?_ ?_ sound.frames, fun _ failed => by cases failed⟩
          · simpa [addHandler, IrqInfo.setLine] using grown
          · simpa [addHandler, IrqInfo.setLine, IrqLine.ownRefs,
              IrqSystem.underWay] using refs
      | entered located found configured line comes =>
          simp only [irqStep, called] at stepped
          cases stepped
          have calls : system.frames.countP (·.irq = irq) = 0 :=
            met.resolve_left comes.fresh
          have noneAsked : system.asked irq = [] := by
            have recorded := (sound.agreed irq).recorded
            rw [of_not_not comes.fresh] at recorded
            exact List.map_eq_nil_iff.mp recorded.symm
          refine ⟨sound.of_line irq
            (sound.tree.enter laws (free comes.fresh) found configured comes)
            comes.others
            (fun _ different => Function.update_of_ne different _ _)
            (fun _ _ => rfl) ?_ ?_ sound.frames, fun _ failed => by cases failed⟩
          · simp only [line, Function.update_self, noneAsked, List.nil_append]
            exact Agreed.first ⟨⟨handler, privateInfo⟩, attr, prio⟩ 1 _
          · simp [line, IrqLine.ownRefs, IrqSystem.underWay, calls]

/-- Entries that are taken off change no dispatch's line. -/
theorem countP_takenOff
    (irq place other : Nat)
    (frames : List Frame) :
    (frames.map (Frame.takenOff irq place)).countP (·.irq = other) =
      frames.countP (·.irq = other) := by
  rw [List.countP_map]
  refine List.countP_congr fun frame _ => ?_
  by_cases same : frame.irq = irq <;>
    simp [Frame.takenOff, same]

/-- Taking a handler off keeps the invariant; a refusal changes nothing. -/
theorem SystemSound.unregister
    (laws : ∀ ctrlr ∈ ctrlrQue, MaskLaws masked ctrlr)
    (sound : SystemSound masked ctrlrQue system)
    {irq handler : Nat}
    {result : Except Errno Unit}
    (stepped :
      irqStep rebalancing system
          (.unregister irq handler : IrqAction masked) =
        some (result, after)) :
    SystemSound masked ctrlrQue after ∧
      ∀ code, result = .error code → Unchanged masked system after := by
  have referred : system.info.Registered irq →
      (system.info.irqs irq).refs ≠ 0 :=
    fun registered => (sound.referred_iff irq).mpr (.inl registered)
  cases called :
      irqUnregisterHandler rebalancing system.info irq handler with
  | none =>
      simp only [irqStep, called] at stepped
      cases stepped
  | some outcome =>
      obtain ⟨answer, info⟩ := outcome
      cases irqUnregisterHandler_unregistering rebalancing laws sound.tree
          referred called with
      | refused =>
          simp only [irqStep, called] at stepped
          cases stepped
          exact ⟨sound, fun _ _ => ⟨rfl, rfl, rfl, rfl, fun _ => id⟩⟩
      | takenOff found tree irqs =>
          simp only [irqStep, called] at stepped
          cases stepped
          have registered : system.info.Registered irq :=
            List.ne_nil_of_mem (List.mem_of_find?_eq_some found)
          have refs := sound.refs irq
          rw [IrqLine.ownRefs, if_neg registered] at refs
          refine ⟨sound.of_line irq tree (fun other different => ?_)
            (fun _ different => Function.update_of_ne different _ _)
            (fun other _ => ?_) ?_ ?_ ?_, fun _ failed => by cases failed⟩
          · rw [irqs, Function.update_of_ne different]
          · exact countP_takenOff irq _ other system.frames
          · simp only [irqs, Function.update_self]
            exact (sound.agreed irq).takeOff found _
          · simp only [irqs, Function.update_self, IrqLine.ownRefs,
              IrqSystem.underWay, countP_takenOff]
            rw [IrqSystem.underWay] at refs
            split_ifs <;> omega
          · intro frame member
            obtain ⟨before, stays, rfl⟩ := List.mem_map.mp member
            rw [Frame.takenOff]
            split_ifs
            all_goals exact sound.frames before stays

/--
What is left of a dispatch keeps the invariant, when the references to its
line are those for its handlers and for the other dispatches.
-/
theorem SystemSound.withFrame
    (sound : SystemSound masked ctrlrQue system)
    {irq count : Nat}
    {others : List Frame}
    {left : Option Frame × IrqInfo Hw}
    (kept : ∀ frame ∈ others, frame ∈ system.frames)
    (calls : ∀ other, other ≠ irq →
      others.countP (·.irq = other) = system.underWay other)
    (counted :
      count =
        (system.info.irqs irq).ownRefs + 3 * others.countP (·.irq = irq))
    (dispatched :
      Dispatched masked ctrlrQue system.info irq count left) :
    SystemSound masked ctrlrQue (system.withFrame others left) := by
  cases dispatched with
  | ended recounted =>
      refine sound.of_line irq recounted.tree (fun other different => ?_)
        (fun _ _ => rfl) calls ?_ ?_ fun frame member =>
          sound.frames frame (kept frame member)
      · simp [IrqSystem.withFrame, recounted.irqs, different]
      · simpa [IrqSystem.withFrame, recounted.irqs] using
          (sound.agreed irq).withRefs count
      · simpa [IrqSystem.withFrame, IrqSystem.underWay, IrqLine.ownRefs,
          recounted.irqs] using counted
  | @waiting frame after sameLine place recounted =>
      refine sound.of_line irq recounted.tree (fun other different => ?_)
        (fun _ _ => rfl) (fun other different => ?_) ?_ ?_ ?_
      · simp [IrqSystem.withFrame, recounted.irqs, different]
      · rw [← calls other different]
        exact List.countP_cons_of_neg (by simp [sameLine, different.symm])
      · simpa [IrqSystem.withFrame, recounted.irqs] using
          (sound.agreed irq).withRefs (count + 3)
      · have oneMore :
            (frame :: others).countP (·.irq = irq) =
              others.countP (·.irq = irq) + 1 :=
          List.countP_cons_of_pos (by simp [sameLine])
        simp only [IrqSystem.withFrame, IrqSystem.underWay, IrqLine.ownRefs,
          recounted.irqs, Function.update_self, Option.toList_some,
          List.singleton_append, oneMore]
        rw [IrqLine.ownRefs] at counted
        omega
      · intro other member
        rcases List.mem_cons.mp member with same | old
        · exact same ▸ place
        · exact sound.frames other (kept other old)

/-- The invariant and the hardware of the system under another hardware state. -/
theorem SystemSound.withHw
    (sound : SystemSound masked ctrlrQue system)
    {hw : Hw}
    (keeps : ∀ line, masked system.info.hw line → masked hw line) :
    SystemSound masked ctrlrQue
      { system with info := { system.info with hw } } :=
  ⟨sound.tree.withHw fun line _ => keeps line, sound.agreed, sound.refs,
    sound.frames⟩

/-- An interrupt keeps the invariant; when nothing is pending, only polls are made. -/
theorem SystemSound.interrupt
    (laws : ∀ ctrlr ∈ ctrlrQue, MaskLaws masked ctrlr)
    (sound : SystemSound masked ctrlrQue system)
    {result : Except Errno Unit}
    (stepped :
      irqStep rebalancing system (.interrupt : IrqAction masked) =
        some (result, after)) :
    SystemSound masked ctrlrQue after ∧
      ∀ code, result = .error code → Unchanged masked system after := by
  obtain ⟨hw, keeps, quiet | ⟨irq, referred, pending⟩⟩ :=
    findPending_found rebalancing laws sound.tree
  · simp only [irqStep, quiet] at stepped
    cases stepped
    exact ⟨sound.withHw keeps, fun _ _ => ⟨rfl, rfl, rfl, rfl, keeps⟩⟩
  · obtain ⟨count, refs⟩ := Nat.exists_eq_succ_of_ne_zero referred
    obtain ⟨-, held⟩ := irqlineGet_recounted sound.tree refs
    have polled :
        Recounted masked ctrlrQue system.info irq (count + 2)
          { system.info.hold irq with hw } :=
      held.withHw fun line _ => keeps line
    obtain ⟨left, called, dispatched⟩ :=
      dispatchLine_dispatched rebalancing laws polled
    simp only [irqStep, pending, called, Option.map_some] at stepped
    cases stepped
    refine ⟨sound.withFrame (fun _ => id) (fun _ _ => rfl) ?_ dispatched,
      fun _ failed => by cases failed⟩
    rw [← Nat.succ_eq_add_one, ← refs]
    exact sound.refs irq

/-- A dispatch and the others are all the dispatches. -/
theorem countP_eraseIdx
    {frames : List Frame}
    {index : Nat}
    {frame : Frame}
    (atIndex : frames[index]? = some frame)
    (irq : Nat) :
    frames.countP (·.irq = irq) =
      (frame :: frames.eraseIdx index).countP (·.irq = irq) := by
  obtain ⟨inRange, same⟩ := List.getElem?_eq_some_iff.mp atIndex
  rw [← same]
  exact ((List.getElem_cons_eraseIdx_perm inRange).countP_eq _).symm

/-- A handler that returns keeps the invariant. -/
theorem SystemSound.handlerReturns
    (laws : ∀ ctrlr ∈ ctrlrQue, MaskLaws masked ctrlr)
    (sound : SystemSound masked ctrlrQue system)
    {index : Nat}
    {handled : Bool}
    {result : Except Errno Unit}
    (met :
      handled = true ∨ ∀ frame ∈ system.frames[index]?, frame.place ≠ none)
    (stepped :
      irqStep rebalancing system
          (.handlerReturns index handled : IrqAction masked) =
        some (result, after)) :
    SystemSound masked ctrlrQue after ∧
      ∀ code, result = .error code → Unchanged masked system after := by
  cases atIndex : system.frames[index]? with
  | none =>
      simp only [irqStep, atIndex] at stepped
      cases stepped
  | some frame =>
      have allCalls := countP_eraseIdx atIndex
      have counted :
          (system.info.irqs frame.irq).refs =
            ((system.info.irqs frame.irq).ownRefs +
              3 * (system.frames.eraseIdx index).countP
                (·.irq = frame.irq)) + 3 := by
        rw [sound.refs, IrqSystem.underWay, allCalls,
          List.countP_cons_of_pos (by simp)]
        omega
      have running : handled = true ∨ frame.place ≠ none :=
        met.imp_right fun all => all frame atIndex
      obtain ⟨left, called, dispatched⟩ :=
        handlerReturns_dispatched rebalancing laws sound.tree counted
          (sound.frames frame (List.mem_of_getElem? atIndex)) running
      simp only [irqStep, atIndex, called, Option.map_some] at stepped
      cases stepped
      refine ⟨sound.withFrame (fun _ => List.mem_of_mem_eraseIdx)
        (fun other different => ?_) rfl dispatched,
      fun _ failed => by cases failed⟩
      rw [IrqSystem.underWay, allCalls,
        List.countP_cons_of_neg (by simp [different.symm])]

/-- Every step that meets the condition keeps the invariant. -/
theorem SystemSound.step
    (laws : ∀ ctrlr ∈ ctrlrQue, MaskLaws masked ctrlr)
    (sound : SystemSound masked ctrlrQue system)
    {action : IrqAction masked}
    {result : Except Errno Unit}
    (met : StepMeets system action)
    (stepped : irqStep rebalancing system action = some (result, after)) :
    SystemSound masked ctrlrQue after ∧
      ∀ code, result = .error code → Unchanged masked system after := by
  cases action with
  | register irq attr prio handler privateInfo =>
      exact sound.register rebalancing laws met stepped
  | unregister irq handler =>
      exact sound.unregister rebalancing laws stepped
  | interrupt =>
      exact sound.interrupt rebalancing laws stepped
  | handlerReturns index handled =>
      exact sound.handlerReturns rebalancing laws met stepped
  | device change =>
      cases stepped
      exact ⟨sound.withHw (change.keeps _), nofun⟩

/-- After `irq_init` all lines are masked, and none has a handler. -/
theorem initial_sound
    {hw : Hw}
    (allMasked : ∀ irq, masked hw irq) :
    SystemSound masked ctrlrQue (IrqSystem.initial ctrlrQue hw) := by
  refine ⟨⟨rfl, ?_, ?_, ?_, ?_, fun irq _ => allMasked irq⟩, fun irq => ?_,
    fun irq => ?_, nofun⟩
  · exact List.nodup_nil
  · simp [IrqSystem.initial, irqInit, NodeTree.toList]
  · simp [IrqSystem.initial, irqInit]
  · simp [IrqSystem.initial, irqInit]
  · constructor <;> simp [IrqSystem.initial, irqInit]
  · simp [IrqSystem.initial, irqInit, IrqLine.ownRefs, IrqSystem.underWay]

/-- The invariant holds in every run whose steps meet the condition. -/
theorem sound_of_run
    (laws : ∀ ctrlr ∈ ctrlrQue, MaskLaws masked ctrlr)
    {hw : Hw}
    (allMasked : ∀ irq, masked hw irq)
    {actions : List (IrqAction masked)}
    (run :
      Run (Guarded StepMeets (StepOf (irqSystemNext rebalancing)))
        (IrqSystem.initial ctrlrQue hw) actions system) :
    SystemSound masked ctrlrQue system := by
  refine run.invariant (initial_sound allMasked) fun sound stepped => ?_
  obtain ⟨met, next⟩ := stepped
  obtain ⟨⟨result, last⟩, called, rfl⟩ := Option.map_eq_some_iff.mp next
  exact (sound.step rebalancing laws met called).1

/-! ## Runs -/

/--
What holds of the lines in every state: with no dispatch under way on a line,
it is in the tree exactly while it has a handler, with one reference then and
none otherwise, and masked when it has none.
-/
structure LinesRight
    {Hw : Type}
    (masked : Hw → Nat → Prop)
    (system : IrqSystem Hw) : Prop where
  recorded : ∀ irq,
    (system.info.irqs irq).handlers = (system.asked irq).map (·.ent)
  listed : ∀ irq,
    irq ∈ system.info.prioQue.toList ↔
      system.info.Registered irq ∨ system.underWay irq ≠ 0
  refs : ∀ irq,
    (system.info.irqs irq).refs =
      (if system.info.Registered irq then 1 else 0) +
        3 * system.underWay irq
  exclusive : ∀ irq, ∀ registration ∈ system.asked irq,
    registration.attr &&& irqAttrExclusive ≠ 0 →
      (system.info.irqs irq).handlers.length = 1
  agreed : ∀ irq, ∀ one ∈ system.asked irq, ∀ other ∈ system.asked irq,
    one.attr &&& irqAttrTriggerMask = other.attr &&& irqAttrTriggerMask ∧
      one.prio = other.prio
  masked : ∀ irq,
    ¬ system.info.Registered irq →
      system.underWay irq = 0 → masked system.info.hw irq

/--
What the next call returns: with an error everything stays, and taking off
what is not registered is answered `-ENOENT` exactly on a line that had a
handler before.
-/
structure CallsRight
    {Hw : Type}
    (rebalancing : Rebalancing Nat)
    (masked : Hw → Nat → Prop)
    (system : IrqSystem Hw) : Prop where
  errors : ∀ (action : IrqAction masked) code after,
    StepMeets system action →
      irqStep rebalancing system action = some (.error code, after) →
        Unchanged masked system after
  missing : ∀ irq handler,
    irq < nrIrqs →
      (∀ ent ∈ (system.info.irqs irq).handlers, ent.handler ≠ handler) →
        (irqStep rebalancing system
              (.unregister irq handler : IrqAction masked) =
            some (.error .enoent, system) ↔
          (system.info.irqs irq).ctrlr ≠ none)

theorem SystemSound.linesRight
    (sound : SystemSound masked ctrlrQue system) :
    LinesRight masked system := by
  refine ⟨fun irq => (sound.agreed irq).recorded, fun irq => ?_,
    fun irq => ?_, fun irq registration member isExclusive => ?_,
    fun irq one member other otherMember => ?_, fun irq none noCall => ?_⟩
  · rw [sound.tree.listed, sound.referred_iff]
  · rw [sound.refs, IrqLine.ownRefs]
    by_cases registered : system.info.Registered irq
    · rw [if_pos registered, if_neg registered]
    · rw [if_neg registered, if_pos (of_not_not registered)]
  · have agreed := sound.agreed irq
    have single :=
      agreed.single (agreed.exclusive registration member isExclusive)
    rw [agreed.recorded, List.length_map]
    exact le_antisymm single (List.length_pos_of_mem member)
  · have agreed := sound.agreed irq
    exact ⟨(agreed.trigger one member).trans
        (agreed.trigger other otherMember).symm,
      (agreed.prio one member).trans (agreed.prio other otherMember).symm⟩
  · refine sound.tree.masked irq (of_not_not fun referred => ?_)
    rcases (sound.referred_iff irq).mp referred with registered | busy
    · exact none registered
    · exact busy noCall

/-- A handler that is not registered is looked up on the lines that had one. -/
theorem irqUnregisterHandler_missing
    {info : IrqInfo Hw}
    {irq handler : Nat}
    (small : irq < nrIrqs)
    (missing : ∀ ent ∈ (info.irqs irq).handlers, ent.handler ≠ handler) :
    irqUnregisterHandler rebalancing info irq handler =
      if (info.irqs irq).ctrlr = none then none
      else some (.error .enoent, info) := by
  have notFound :
      (info.irqs irq).handlers.find? (·.handler = handler) = none := by
    rw [List.find?_eq_none]
    intro ent member
    simpa using missing ent member
  rw [irqUnregisterHandler, if_neg (Nat.not_le.mpr small)]
  simp only [notFound]

/--
In every run whose steps meet the condition, whatever handlers and other
processors do in between, the lines are right and so is the next call.
-/
theorem lines_right_of_runs
    (laws : ∀ ctrlr ∈ ctrlrQue, MaskLaws masked ctrlr)
    {hw : Hw}
    (allMasked : ∀ irq, masked hw irq)
    {actions : List (IrqAction masked)}
    (run :
      Run (Guarded StepMeets (StepOf (irqSystemNext rebalancing)))
        (IrqSystem.initial ctrlrQue hw) actions system) :
    LinesRight masked system ∧ CallsRight rebalancing masked system := by
  have sound := sound_of_run rebalancing laws allMasked run
  refine ⟨sound.linesRight, fun action code after met stepped => ?_,
    fun irq handler small missing => ?_⟩
  · exact (sound.step rebalancing laws met stepped).2 code rfl
  · have answer := irqUnregisterHandler_missing rebalancing small missing
    by_cases uncontrolled : (system.info.irqs irq).ctrlr = none
    · rw [if_pos uncontrolled] at answer
      simp [irqStep, answer, uncontrolled]
    · rw [if_neg uncontrolled] at answer
      simp [irqStep, answer, uncontrolled]

end Invariant

/-! ## The platform controller -/

/-- A source that is not enabled. -/
def Plic.Masked
    (plic : Plic)
    (irq : Nat) : Prop :=
  plic.senable.getLsbD irq = false

/-- The platform controller masks the lines as it is told. -/
theorem plicCtrlr_masks : MaskLaws Plic.Masked plicCtrlr := by
  have bit : ∀ {irq other : Nat}, other ≠ irq →
      (1#32 <<< irq).getLsbD other = false := by
    intro irq other different
    simp only [BitVec.getLsbD_shiftLeft, BitVec.getLsbD_one]
    grind
  constructor
  case disables =>
    intro plic irq
    by_cases big : irq ≥ plicIrqMax
    · exact BitVec.getLsbD_of_ge _ irq big
    · have small : irq < 32 := Nat.not_le.mp big
      simp [plicCtrlr, plicDisableIrq, Plic.Masked, big, small]
  case disableIrq =>
    intro plic irq other before
    simp only [plicCtrlr, plicDisableIrq]
    split_ifs
    · exact before
    · rw [Plic.Masked, BitVec.getLsbD_and, before, Bool.false_and]
  case enableIrq =>
    intro plic irq other different before
    simp only [plicCtrlr, plicEnableIrq]
    split_ifs
    · exact before
    · exact bit different
  case configIrq =>
    intro plic irq attr prio after other configured different before
    simp only [plicCtrlr, plicConfigIrq] at configured
    split_ifs at configured
    cases configured
    rw [Plic.Masked, BitVec.getLsbD_or, before, bit different, Bool.or_false]
  case irqIsPending =>
    intro plic irq prio other before
    have claimed : plic.claim.2.senable = plic.senable := by
      rw [Plic.claim]
      cases plic.nextSource <;> rfl
    simp only [plicCtrlr, plicIrqIsPending]
    split_ifs
    · exact before
    · rw [Plic.Masked, claimed]
      exact before
  case setPriority =>
    intro operations member plic prio other before
    cases member
    simp only [plicSetPriority]
    split_ifs <;> exact before
  case eoi =>
    intro plic irq other before
    simp only [plicCtrlr, plicEoi]
    split_ifs <;> exact before

/-- The sources that wait change. -/
def plicDevices (pending : Nat → Bool) : HwChange Plic.Masked where
  apply := fun plic => { plic with pending }
  keeps := fun _ _ => id

/-- A line whose only handler takes itself off while it handles an interrupt. -/
def selfUnregisteringActions : List (IrqAction Plic.Masked) :=
  [.register 3 irqAttrEdge 1 100 0,
    .device (plicDevices fun line => decide (line = 3)), .interrupt,
    .unregister 3 100, .handlerReturns 0 true]

/-- The line of a handler that took itself off is out of the tree and masked. -/
theorem lines_right_after_selfUnregistering :
    ∃ system,
      execute
          (guardNext StepMeets (irqSystemNext (Rebalancing.never Nat)))
          (IrqSystem.initial [plicCtrlr] quietPlic)
          selfUnregisteringActions = some system ∧
        LinesRight Plic.Masked system ∧
        CallsRight (Rebalancing.never Nat) Plic.Masked system ∧
        3 ∉ system.info.prioQue.toList ∧
        Plic.Masked system.info.hw 3 := by
  obtain ⟨system, executed⟩ : ∃ system,
      execute (guardNext StepMeets (irqSystemNext (Rebalancing.never Nat)))
        (IrqSystem.initial [plicCtrlr] quietPlic)
        selfUnregisteringActions = some system :=
    Option.isSome_iff_exists.mp (by decide +kernel)
  have facts :
      (execute (guardNext StepMeets (irqSystemNext (Rebalancing.never Nat)))
        (IrqSystem.initial [plicCtrlr] quietPlic)
        selfUnregisteringActions).map
          (fun system =>
            (decide (system.info.Registered 3), system.underWay 3)) =
        some (false, 0) := by
    decide +kernel
  rw [executed, Option.map_some, Option.some.injEq] at facts
  simp only [Prod.mk.injEq, decide_eq_false_iff_not] at facts
  obtain ⟨unregistered, ended⟩ := facts
  obtain ⟨lines, calls⟩ :=
    lines_right_of_runs (Rebalancing.never Nat)
      (List.forall_mem_singleton.mpr plicCtrlr_masks)
      (fun _ => by simp [Plic.Masked, quietPlic])
      (Run.guarded_of_execute executed)
  refine ⟨system, executed, lines, calls, fun listed => ?_,
    lines.masked 3 unregistered ended⟩
  rcases (lines.listed 3).mp listed with registered | busy
  · exact unregistered registered
  · exact busy ended

/-- The handler took itself off, and its call has not returned. -/
def unregisteredWhileRunning : Option (IrqSystem Plic) :=
  execute (irqSystemNext (Rebalancing.never Nat))
    (IrqSystem.initial [plicCtrlr] quietPlic)
    (selfUnregisteringActions.take 4)

/--
Taking a handler off a line that never had one stops at an assertion.  While a
handler that took itself off runs, its line is in the tree without handlers: a
registration stops at an assertion, and the dispatch does not end unless the
handler handled the interrupt.
-/
theorem unregister_never_registered_stops :
    (irqStep (Rebalancing.never Nat)
        (IrqSystem.initial [plicCtrlr] quietPlic)
        (.unregister 5 100 : IrqAction Plic.Masked)).isSome = false ∧
      (unregisteredWhileRunning.map fun system =>
        (decide (3 ∈ system.info.prioQue.toList),
          decide (system.info.Registered 3),
          (irqStep (Rebalancing.never Nat) system
            (.register 3 irqAttrEdge 1 100 0 : IrqAction Plic.Masked)).isSome,
          (irqStep (Rebalancing.never Nat) system
            (.handlerReturns 0 false : IrqAction Plic.Masked)).isSome)) =
        some (true, false, false, false) := by
  decide +kernel

end RiscvWorkshop.Irq
