import Mathlib
import RiscvWorkshop.Process

namespace RiscvWorkshop.Process

/-!
# What a process is referred to by

The references of a process are those of its threads and those handed out.
Queue, master and back pointers fit as long as each process gets its first
thread, and each thread that comes to an empty queue, with the pointers set.
-/

/--
The first thread of a process points to it already, and a thread that comes to
an empty queue is the master.
-/
def PointersSet (sys : ProcSystem) : ProcCall → Prop
  | .userAllocate (.all addr _ thr) => sys.threadProc thr = addr
  | .userAllocate (.failed _) => True
  | .addThread addr thr =>
      ∀ p ∈ sys.procs addr, p.thrque = [] → thr = p.master
  | .delThread _ _ => True
  | .findByPid _ => True
  | .findThread _ => True
  | .refInc _ => True
  | .refDec _ => True
  | .threadRefs _ _ => True

instance (sys : ProcSystem) : ∀ call, Decidable (PointersSet sys call)
  | .userAllocate (.all _ _ _) => inferInstanceAs (Decidable (_ = _))
  | .userAllocate (.failed _) => inferInstanceAs (Decidable True)
  | .addThread _ _ => inferInstanceAs (Decidable (∀ p ∈ _, _ → _))
  | .delThread _ _ => inferInstanceAs (Decidable True)
  | .findByPid _ => inferInstanceAs (Decidable True)
  | .findThread _ => inferInstanceAs (Decidable True)
  | .refInc _ => inferInstanceAs (Decidable True)
  | .refDec _ => inferInstanceAs (Decidable True)
  | .threadRefs _ _ => inferInstanceAs (Decidable True)

/-- What one process had released, in order. -/
def ProcSystem.releasedOf
    (sys : ProcSystem)
    (serial : Nat) : List Resource :=
  (sys.released.filter (·.1 = serial)).map (·.2)

/-- A process in use. -/
structure ProcSound
    (sys : ProcSystem)
    (addr : Nat)
    (p : Proc) : Prop where
  refs : p.refs = p.thrque.length + p.handed
  referred : 0 < p.refs
  master : p.thrque ≠ [] → p.master ∈ p.thrque
  back : ∀ thr ∈ p.thrque, sys.threadProc thr = addr
  inTree : (p.id, addr) ∈ sys.head
  kept : sys.releasedOf p.serial = []

/--
Every process in use is sound, the tree holds those and no others, and a
process that is no longer in use released everything once.
-/
structure Accounted (sys : ProcSystem) : Prop where
  procs : ∀ {addr p}, sys.procs addr = some p → ProcSound sys addr p
  tree : ∀ {id addr},
    (id, addr) ∈ sys.head → ∃ p, sys.procs addr = some p ∧ p.id = id
  ended : ∀ serial < sys.nextSerial,
    (∃ addr p, sys.procs addr = some p ∧ p.serial = serial) ∨
      sys.releasedOf serial = allResources

/-- The invariant: numbers are not used twice either. -/
structure SystemSound (sys : ProcSystem) : Prop extends Accounted sys where
  ids : (sys.head.map (·.1)).Nodup
  counted : ∀ {addr p}, sys.procs addr = some p → p.serial < sys.nextSerial
  serials : ∀ {addr other p q},
    sys.procs addr = some p →
    sys.procs other = some q →
    p.serial = q.serial →
    addr = other
  unused : ∀ serial, sys.nextSerial ≤ serial → sys.releasedOf serial = []

section Steps

variable {sys after : ProcSystem}
variable {addr thr : Nat}
variable {p q : Proc}

/-! ## One process rewritten -/

@[simp]
theorem setProc_self :
    (sys.setProc addr p).procs addr = some p :=
  Function.update_self ..

@[simp]
theorem setProc_setProc :
    (sys.setProc addr p).setProc addr q = sys.setProc addr q := by
  simp only [ProcSystem.setProc, Function.update_idem]

/-- Writing back what is there changes nothing. -/
theorem setProc_same
    (found : sys.procs addr = some p) :
    sys.setProc addr p = sys := by
  rw [ProcSystem.setProc, ← found, Function.update_eq_self]

/-- A process that is written back after its threads were counted. -/
theorem setProc_threadRefs
    (found : sys.procs addr = some p)
    (refs : Nat → Nat) :
    { sys.setProc addr q with threadRefs := refs : ProcSystem }.setProc addr p =
      { sys with threadRefs := refs } := by
  change
    ({ sys with threadRefs := refs : ProcSystem }.setProc addr q).setProc
      addr p = _
  rw [setProc_setProc]
  exact setProc_same found

theorem setProc_cases
    {other : Nat}
    {r : Proc}
    (found : (sys.setProc addr p).procs other = some r) :
    (other = addr ∧ r = p) ∨ (other ≠ addr ∧ sys.procs other = some r) := by
  change Function.update sys.procs addr (some p) other = some r at found
  by_cases same : other = addr
  · subst same
    rw [Function.update_self, Option.some.injEq] at found
    exact .inl ⟨rfl, found.symm⟩
  · rw [Function.update_of_ne same] at found
    exact .inr ⟨same, found⟩

/-- A process that keeps its number may change as long as it is sound. -/
theorem SystemSound.setProc
    (sound : SystemSound sys)
    (found : sys.procs addr = some p)
    (id : q.id = p.id)
    (serial : q.serial = p.serial)
    (refs : q.refs = q.thrque.length + q.handed)
    (referred : 0 < q.refs)
    (master : q.thrque ≠ [] → q.master ∈ q.thrque)
    (back : ∀ thr ∈ q.thrque, sys.threadProc thr = addr) :
    SystemSound (sys.setProc addr q) := by
  have old := sound.procs found
  have serialOf {other : Nat} {r : Proc}
      (there : (sys.setProc addr q).procs other = some r) :
      ∃ s, sys.procs other = some s ∧ s.serial = r.serial := by
    rcases setProc_cases there with ⟨rfl, rfl⟩ | ⟨-, there⟩
    · exact ⟨p, found, serial.symm⟩
    · exact ⟨r, there, rfl⟩
  refine ⟨⟨fun there => ?_, fun {_ other} member => ?_, fun n small => ?_⟩,
    sound.ids, fun there => ?_, fun there thereToo same => ?_, sound.unused⟩
  · rcases setProc_cases there with ⟨rfl, rfl⟩ | ⟨-, there⟩
    · exact ⟨refs, referred, master, back, id ▸ old.inTree,
        serial ▸ old.kept⟩
    · obtain ⟨refs, referred, master, back, inTree, kept⟩ := sound.procs there
      exact ⟨refs, referred, master, back, inTree, kept⟩
  · obtain ⟨r, there, isId⟩ := sound.tree member
    by_cases same : other = addr
    · subst same
      rw [found, Option.some.injEq] at there
      exact ⟨q, setProc_self, id.trans (there ▸ isId)⟩
    · exact ⟨r, (Function.update_of_ne same ..).trans there, isId⟩
  · rcases sound.ended n small with ⟨other, r, there, isSerial⟩ | released
    · by_cases same : other = addr
      · subst same
        rw [found, Option.some.injEq] at there
        exact .inl ⟨other, q, setProc_self, serial.trans (there ▸ isSerial)⟩
      · exact .inl ⟨other, r, (Function.update_of_ne same ..).trans there,
          isSerial⟩
    · exact .inr released
  · obtain ⟨r, there, isSerial⟩ := serialOf there
    exact isSerial ▸ sound.counted there
  · obtain ⟨r, there, isSerial⟩ := serialOf there
    obtain ⟨s, thereToo, isSerialToo⟩ := serialOf thereToo
    exact sound.serials there thereToo
      (isSerial.trans (same.trans isSerialToo.symm))

/-- A thread of a process in use is attached. -/
theorem SystemSound.attached
    (sound : SystemSound sys)
    (found : sys.procs addr = some p)
    (queued : thr ∈ p.thrque) :
    sys.Attached thr :=
  ⟨(p.id, addr), (sound.procs found).inTree, p, found, queued⟩

/-- A thread on no queue may point anywhere. -/
theorem SystemSound.point
    (sound : SystemSound sys)
    (free : ¬ sys.Attached thr)
    (target : Nat) :
    SystemSound
      { sys with threadProc := Function.update sys.threadProc thr target } := by
  refine ⟨⟨fun found => ?_, sound.tree, sound.ended⟩, sound.ids,
    sound.counted, sound.serials, sound.unused⟩
  have old := sound.procs found
  refine ⟨old.refs, old.referred, old.master, fun other queued => ?_,
    old.inTree, old.kept⟩
  have different : other ≠ thr := by
    intro same
    exact free (same ▸ sound.attached found queued)
  exact (Function.update_of_ne different ..).trans (old.back other queued)

/-- References to threads are not those to processes. -/
theorem SystemSound.threadRefs
    (sound : SystemSound sys)
    (refs : Nat → Nat) :
    SystemSound { sys with threadRefs := refs } := by
  refine ⟨⟨fun found => ?_, sound.tree, sound.ended⟩, sound.ids,
    sound.counted, sound.serials, sound.unused⟩
  have old := sound.procs found
  exact ⟨old.refs, old.referred, old.master, old.back, old.inTree, old.kept⟩

/-! ## The end of a process -/

/-- The record of a process after its end. -/
theorem releasedOf_free
    (serial : Nat) :
    (sys.freeUserProcess addr p).releasedOf serial =
      sys.releasedOf serial ++
        if p.serial = serial then allResources else [] := by
  rw [ProcSystem.releasedOf, ProcSystem.freeUserProcess, List.filter_append,
    List.map_append]
  congr 1
  rw [List.filter_map, List.map_map]
  split
  case isTrue same =>
    simp [same, Function.comp_def]
  case isFalse different =>
    simp [different, Function.comp_def]

/-- The tree without an entry of a process. -/
theorem SystemSound.mem_erase
    (sound : SystemSound sys)
    (found : sys.procs addr = some p)
    {entry : Nat × Nat} :
    entry ∈ sys.head.erase (p.id, addr) ↔
      entry.2 ≠ addr ∧ entry ∈ sys.head := by
  have once : sys.head.Nodup := sound.ids.of_map
  rw [once.mem_erase_iff]
  constructor
  · rintro ⟨different, member⟩
    refine ⟨fun same => different ?_, member⟩
    obtain ⟨id, other⟩ := entry
    cases same
    obtain ⟨r, there, isId⟩ := sound.tree member
    rw [found, Option.some.injEq] at there
    rw [← isId, there]
  · rintro ⟨different, member⟩
    exact ⟨fun same => different (congrArg Prod.snd same), member⟩

/-- The last reference releases everything. -/
theorem SystemSound.free
    (sound : SystemSound sys)
    (found : sys.procs addr = some p)
    (serial : q.serial = p.serial) :
    SystemSound
      ({ sys with
          head := sys.head.erase (p.id, addr) : ProcSystem }.freeUserProcess
        addr q) := by
  have released (n : Nat) :
      ({ sys with
          head := sys.head.erase (p.id, addr) : ProcSystem }.freeUserProcess
        addr q).releasedOf n =
      sys.releasedOf n ++ if p.serial = n then allResources else [] := by
    rw [releasedOf_free, serial]
    rfl
  have still {other : Nat} {r : Proc}
      (there : Function.update sys.procs addr none other = some r) :
      other ≠ addr ∧ sys.procs other = some r := by
    by_cases same : other = addr
    · subst same
      rw [Function.update_self] at there
      cases there
    · rw [Function.update_of_ne same] at there
      exact ⟨same, there⟩
  refine ⟨⟨fun there => ?_, fun member => ?_, fun n small => ?_⟩,
    sound.ids.sublist ((List.erase_sublist ..).map _),
    fun there => sound.counted (still there).2,
    fun there thereToo => sound.serials (still there).2 (still thereToo).2,
    fun n large => ?_⟩
  · obtain ⟨different, there⟩ := still there
    obtain ⟨refs, referred, master, back, inTree, kept⟩ := sound.procs there
    refine ⟨refs, referred, master, back,
      (sound.mem_erase found).mpr ⟨different, inTree⟩, ?_⟩
    rw [released, kept, if_neg fun same => different ?_]
    · rfl
    · exact sound.serials there found same.symm
  · obtain ⟨different, member⟩ := (sound.mem_erase found).mp member
    obtain ⟨r, there, isId⟩ := sound.tree member
    exact ⟨r, (Function.update_of_ne different ..).trans there, isId⟩
  · rw [released]
    by_cases same : p.serial = n
    · rw [if_pos same, ← same, (sound.procs found).kept]
      exact .inr rfl
    · rw [if_neg same, List.append_nil]
      rcases sound.ended n small with ⟨other, r, there, isSerial⟩ | done
      · refine .inl ⟨other, r, ?_, isSerial⟩
        refine (Function.update_of_ne (fun isAddr => same ?_) ..).trans there
        subst isAddr
        rw [found, Option.some.injEq] at there
        exact there ▸ isSerial
      · exact .inr done
  · have different : p.serial ≠ n :=
      Nat.ne_of_lt (Nat.lt_of_lt_of_le (sound.counted found) large)
    rw [released, if_neg different, sound.unused n large]
    rfl

/-! ## The calls -/

/-- A process in use has a reference, so that another can be taken. -/
theorem procRefInc_eq
    (found : sys.procs addr = some p)
    (referred : 0 < p.refs) :
    sys.procRefInc addr =
      some (true, sys.setProc addr { p with refs := p.refs + 1 }) := by
  rw [ProcSystem.procRefInc, found]
  exact if_neg (Nat.ne_of_gt referred)

/-- A reference that is not the last one. -/
theorem procRefDec_eq
    (sys : ProcSystem)
    (found : sys.procs addr = some p)
    {refs : Nat}
    (counted : p.refs = refs + 1)
    (more : refs ≠ 0) :
    sys.procRefDec addr = some (false, sys.setProc addr { p with refs }) := by
  simp only [ProcSystem.procRefDec, found, counted]
  exact if_pos more

/-- A process that has one reference more than threads and holders. -/
structure OneOff (sys : ProcSystem) (addr : Nat) (p q : Proc) : Prop where
  id : q.id = p.id
  serial : q.serial = p.serial
  refs : q.refs = q.thrque.length + q.handed + 1
  master : q.thrque ≠ [] → q.master ∈ q.thrque
  back : ∀ thr ∈ q.thrque, sys.threadProc thr = addr

/-- Giving back the reference keeps the process, or ends it with the last. -/
theorem SystemSound.refDec
    (sound : SystemSound sys)
    (found : sys.procs addr = some p)
    (off : OneOff sys addr p q)
    {isLast : Bool}
    (returned :
      (sys.setProc addr q).procRefDec addr = some (isLast, after)) :
    SystemSound after := by
  rw [ProcSystem.procRefDec, setProc_self] at returned
  simp only [off.refs] at returned
  split at returned
  case isTrue more =>
    simp only [setProc_setProc, Option.some.injEq, Prod.mk.injEq] at returned
    rw [← returned.2]
    exact sound.setProc found off.id off.serial rfl (Nat.pos_of_ne_zero more)
      off.master off.back
  case isFalse =>
    split at returned
    case isTrue =>
      simp only [Option.some.injEq, Prod.mk.injEq] at returned
      have ended := sound.free found off.serial
      rw [← returned.2, off.id]
      simpa only [ProcSystem.freeUserProcess, ProcSystem.setProc,
        Function.update_idem] using ended
    case isFalse => cases returned

/-- References that callers hold are counted at the process. -/
theorem hand_eq
    (found : sys.procs addr = some p)
    (change : Nat → Nat) :
    sys.hand change addr =
      sys.setProc addr { p with handed := change p.handed } := by
  rw [ProcSystem.hand, found]

/-- A reference is taken and handed out. -/
theorem SystemSound.refInc
    (sound : SystemSound sys)
    (found : sys.procs addr = some p)
    (taken : sys.procRefInc addr = some (true, after)) :
    SystemSound (after.hand (· + 1) addr) := by
  have old := sound.procs found
  rw [procRefInc_eq found old.referred] at taken
  simp only [Option.some.injEq, Prod.mk.injEq, true_and] at taken
  rw [← taken, hand_eq setProc_self, setProc_setProc]
  refine sound.setProc found rfl rfl ?_ (Nat.succ_pos p.refs) old.master
    old.back
  change p.refs + 1 = p.thrque.length + (p.handed + 1)
  rw [old.refs, Nat.add_assoc]

/-- A thread is queued, points back, and counts as a reference. -/
theorem procAddThread_eq
    (found : sys.procs addr = some p)
    (referred : 0 < p.refs) :
    sys.procAddThread addr thr =
      some (.ok (),
        { sys with
            threadProc :=
              Function.update sys.threadProc thr addr : ProcSystem }.setProc
          addr
          { p with refs := p.refs + 1, thrque := p.thrque ++ [thr] }) := by
  simp only [ProcSystem.procAddThread, procRefInc_eq found referred,
    setProc_self, setProc_setProc, Option.some.injEq, Prod.mk.injEq, true_and]
  rfl

/-- A thread is added to a process with a master, or becomes it. -/
theorem SystemSound.addThread
    (sound : SystemSound sys)
    (found : sys.procs addr = some p)
    (free : ¬ sys.Attached thr)
    (master : p.thrque = [] → thr = p.master) :
    SystemSound
      ({ sys with
          threadProc :=
            Function.update sys.threadProc thr addr : ProcSystem }.setProc
        addr
        { p with refs := p.refs + 1, thrque := p.thrque ++ [thr] }) := by
  have pointed := sound.point free addr
  have old := pointed.procs found
  refine pointed.setProc found rfl rfl ?_ (Nat.succ_pos p.refs) ?_ ?_
  · change p.refs + 1 = (p.thrque ++ [thr]).length + p.handed
    rw [old.refs, List.length_append, List.length_singleton,
      Nat.add_right_comm]
  · intro _
    change p.master ∈ p.thrque ++ [thr]
    by_cases empty : p.thrque = []
    · rw [empty, master empty]
      exact List.mem_singleton_self p.master
    · exact List.mem_append_left [thr] (old.master empty)
  · intro other queued
    rcases List.mem_append.mp queued with before | isNew
    · exact old.back other before
    · rw [List.mem_singleton.mp isNew]
      exact Function.update_self ..

/-- A thread leaves the queue; if it was the master, the first one left is. -/
theorem procDelThread_eq
    (sound : SystemSound sys)
    (found : sys.procs addr = some p)
    (queued : thr ∈ p.thrque) :
    ∃ master,
      (p.thrque.erase thr ≠ [] → master ∈ p.thrque.erase thr) ∧
        sys.procDelThread addr thr =
          (sys.setProc addr
            { p with thrque := p.thrque.erase thr, master }).procRefDec
            addr := by
  have old := sound.procs found
  let left : Proc := { p with thrque := p.thrque.erase thr }
  obtain ⟨master, isMaster, chosen⟩ : ∃ master,
      (p.thrque.erase thr ≠ [] → master ∈ p.thrque.erase thr) ∧
        (sys.setProc addr left).newMaster left thr = some master := by
    rw [ProcSystem.newMaster]
    by_cases empty : left.thrque = []
    · rw [if_pos empty]
      exact ⟨p.master, fun some => absurd empty some, rfl⟩
    · have pointer : (sys.setProc addr left).threadProc thr = addr :=
        old.back thr queued
      rw [if_neg empty, pointer, setProc_self]
      by_cases wasMaster : thr = p.master
      · simp only [left, if_pos wasMaster]
        obtain ⟨first, rest, shape⟩ := List.exists_cons_of_ne_nil empty
        simp only [left] at shape
        rw [shape]
        exact ⟨first, fun _ => List.mem_cons_self, rfl⟩
      · simp only [left, if_neg wasMaster]
        have isIn := old.master (List.ne_nil_of_mem queued)
        exact ⟨p.master, fun _ =>
          (List.mem_erase_of_ne fun same => wasMaster same.symm).mpr isIn, rfl⟩
  refine ⟨master, isMaster, ?_⟩
  have counted :
      ({ left with refs := p.refs + 1 } : Proc).refs = p.refs + 1 :=
    rfl
  have dropped :=
    procRefDec_eq (sys.setProc addr { left with refs := p.refs + 1 })
      setProc_self counted (Nat.ne_of_gt old.referred)
  rw [setProc_setProc] at dropped
  simp only [ProcSystem.procDelThread, procRefInc_eq found old.referred,
    setProc_self, setProc_setProc]
  rw [dropped]
  simp only [setProc_self]
  simp only [left] at chosen ⊢
  simp only [chosen, setProc_setProc]

/-- A process of the tree that is found by its number. -/
theorem SystemSound.find
    (sound : SystemSound sys)
    {target : Nat}
    (looked : sys.findProc target = some addr) :
    ∃ p, sys.procs addr = some p ∧ p.id = target := by
  obtain ⟨⟨id, other⟩, found, same⟩ := Option.map_eq_some_iff.mp looked
  cases same
  have isId : id = target := by
    simpa using List.find?_some found
  exact isId ▸ sound.tree (List.mem_of_find?_eq_some found)

/-- The references of a search for a thread go as they came. -/
theorem SystemSound.findThread
    (sound : SystemSound sys)
    {target : Nat}
    {result : Option Nat}
    (looked : sys.procFindThread target = some (result, after)) :
    SystemSound after := by
  rw [ProcSystem.procFindThread] at looked
  split at looked
  · cases looked
    exact sound
  case h_2 addr isAddr =>
    obtain ⟨p, found, -⟩ := sound.find isAddr
    have old := sound.procs found
    simp only [procRefInc_eq found old.referred, setProc_self] at looked
    split at looked
    · cases looked
    · have back {refs : Nat → Nat} :=
        procRefDec_eq
          { sys.setProc addr { p with refs := p.refs + 1 } with
            threadRefs := refs }
          setProc_self rfl (Nat.ne_of_gt old.referred)
      rw [back] at looked
      simp only [Option.some.injEq, Prod.mk.injEq] at looked
      rw [← looked.2]
      exact (congrArg SystemSound (setProc_threadRefs found _)).mpr
        (sound.threadRefs _)

/-- The process that an allocation makes. -/
def newProc
    (pid thr serial : Nat) : Proc where
  refs := 1
  thrque := [thr]
  master := thr
  id := pid
  serial := serial
  handed := 0

/-- What a successful allocation does. -/
theorem procUserAllocate_cases
    {pid : Nat}
    {result : Except Errno Nat}
    (allocated :
      sys.procUserAllocate (.all addr pid thr) = some (result, after)) :
    (∀ entry ∈ sys.head, entry.1 ≠ pid) ∧
      after =
        { sys.setProc addr (newProc pid thr sys.nextSerial) with
          head := (pid, addr) :: sys.head
          nextSerial := sys.nextSerial + 1 } := by
  rw [ProcSystem.procUserAllocate] at allocated
  split at allocated
  case isTrue => cases allocated
  case isFalse isNew =>
    simp only [Option.some.injEq, Prod.mk.injEq] at allocated
    refine ⟨fun entry member same => isNew ?_, allocated.2.symm⟩
    exact List.any_eq_true.mpr ⟨entry, member, decide_eq_true same⟩

/-- A new process whose first thread points to it. -/
theorem SystemSound.enter
    (sound : SystemSound sys)
    {pid : Nat}
    (unused : sys.procs addr = none)
    (isNew : ∀ entry ∈ sys.head, entry.1 ≠ pid)
    (points : sys.threadProc thr = addr) :
    SystemSound
      { sys.setProc addr (newProc pid thr sys.nextSerial) with
        head := (pid, addr) :: sys.head
        nextSerial := sys.nextSerial + 1 } := by
  have older {other : Nat} {r : Proc} (there : sys.procs other = some r) :
      other ≠ addr := by
    intro same
    subst same
    rw [unused] at there
    cases there
  refine ⟨⟨fun there => ?_, fun member => ?_, fun n small => ?_⟩, ?_,
    fun there => ?_, fun there thereToo same => ?_,
    fun n large => sound.unused n (Nat.le_of_succ_le large)⟩
  · rcases setProc_cases there with ⟨rfl, rfl⟩ | ⟨-, there⟩
    · refine ⟨rfl, Nat.one_pos, fun _ => List.mem_singleton_self thr, ?_,
        List.mem_cons_self, sound.unused _ (Nat.le_refl _)⟩
      intro other queued
      rw [List.mem_singleton.mp queued]
      exact points
    · obtain ⟨refs, referred, master, back, inTree, kept⟩ := sound.procs there
      exact ⟨refs, referred, master, back, List.mem_cons_of_mem _ inTree, kept⟩
  · rcases List.mem_cons.mp member with isFirst | before
    · cases isFirst
      exact ⟨_, setProc_self, rfl⟩
    · obtain ⟨r, there, isId⟩ := sound.tree before
      exact ⟨r, (Function.update_of_ne (older there) ..).trans there, isId⟩
  · rcases Nat.lt_succ_iff_lt_or_eq.mp small with before | isLast
    · rcases sound.ended n before with ⟨other, r, there, isSerial⟩ | done
      · exact .inl ⟨other, r,
          (Function.update_of_ne (older there) ..).trans there, isSerial⟩
      · exact .inr done
    · exact .inl ⟨addr, _, setProc_self, isLast.symm⟩
  · refine List.nodup_cons.mpr ⟨fun member => ?_, sound.ids⟩
    obtain ⟨entry, before, isId⟩ := List.mem_map.mp member
    exact isNew entry before isId
  · rcases setProc_cases there with ⟨rfl, rfl⟩ | ⟨-, there⟩
    · exact Nat.lt_succ_self sys.nextSerial
    · exact Nat.lt_succ_of_lt (sound.counted there)
  · rcases setProc_cases there with ⟨rfl, rfl⟩ | ⟨-, before⟩
    · rcases setProc_cases thereToo with ⟨rfl, rfl⟩ | ⟨-, before⟩
      · rfl
      · exact absurd same.symm (Nat.ne_of_lt (sound.counted before))
    · rcases setProc_cases thereToo with ⟨rfl, rfl⟩ | ⟨-, thereToo⟩
      · exact absurd same (Nat.ne_of_lt (sound.counted before))
      · exact sound.serials before thereToo same

/-- Every permitted call that sets the pointers keeps the invariant. -/
theorem SystemSound.step
    {call : ProcCall}
    (sound : SystemSound sys)
    (pointers : PointersSet sys call)
    (permitted : sys.Permitted call)
    (called : procCall sys call = some after) :
    SystemSound after := by
  cases call with
  | userAllocate provision =>
      obtain ⟨⟨result, last⟩, allocated, same⟩ :=
        Option.map_eq_some_iff.mp called
      cases same
      cases provision with
      | failed code =>
          cases allocated
          exact sound
      | all addr pid thr =>
          obtain ⟨isNew, entered⟩ := procUserAllocate_cases allocated
          exact entered ▸ sound.enter permitted.1 isNew pointers
  | addThread addr thr =>
      obtain ⟨⟨result, last⟩, added, same⟩ := Option.map_eq_some_iff.mp called
      cases same
      cases found : sys.procs addr with
      | none =>
          simp only [ProcSystem.procAddThread, ProcSystem.procRefInc, found,
            reduceCtorEq] at added
      | some p =>
          rw [procAddThread_eq found (sound.procs found).referred] at added
          cases added
          exact sound.addThread found permitted (pointers p found)
  | delThread addr thr =>
      obtain ⟨⟨result, last⟩, deleted, same⟩ := Option.map_eq_some_iff.mp called
      cases same
      obtain ⟨p, found, queued⟩ := permitted
      have old := sound.procs found
      obtain ⟨master, isMaster, left⟩ := procDelThread_eq sound found queued
      rw [left] at deleted
      have off :
          OneOff sys addr p
            { p with thrque := p.thrque.erase thr, master } := by
        refine ⟨rfl, rfl, ?_, isMaster, fun other member =>
          old.back other (List.mem_of_mem_erase member)⟩
        change p.refs = (p.thrque.erase thr).length + p.handed + 1
        have shorter := List.length_erase_add_one queued
        rw [old.refs]
        omega
      exact sound.refDec found off deleted
  | findByPid target =>
      rw [procCall, ProcSystem.procFindByPid] at called
      cases looked : sys.findProc target with
      | none =>
          simp only [looked] at called
          cases called
          exact sound
      | some addr =>
          obtain ⟨p, found, -⟩ := sound.find looked
          have taken := procRefInc_eq found (sound.procs found).referred
          simp only [looked, taken, Option.map_some] at called
          cases called
          exact sound.refInc found taken
  | findThread target =>
      obtain ⟨⟨result, last⟩, looked, same⟩ := Option.map_eq_some_iff.mp called
      cases same
      exact sound.findThread looked
  | refInc addr =>
      cases found : sys.procs addr with
      | none =>
          simp only [procCall, ProcSystem.procRefInc, found,
            reduceCtorEq] at called
      | some p =>
          have taken := procRefInc_eq found (sound.procs found).referred
          simp only [procCall, taken] at called
          cases called
          exact sound.refInc found taken
  | refDec addr =>
      obtain ⟨⟨isLast, last⟩, returned, same⟩ := Option.map_eq_some_iff.mp called
      cases same
      obtain ⟨p, found, holds⟩ := permitted
      have old := sound.procs found
      rw [hand_eq found] at returned
      have off :
          OneOff sys addr p { p with handed := p.handed - 1 } := by
        refine ⟨rfl, rfl, ?_, old.master, old.back⟩
        change p.refs = p.thrque.length + (p.handed - 1) + 1
        rw [old.refs]
        omega
      exact sound.refDec found off returned
  | threadRefs thr refs =>
      cases called
      exact sound.threadRefs _

/-- A call that leaves a pointer unset leaves a process that is not sound. -/
theorem not_accounted_of_unset
    {call : ProcCall}
    (sound : SystemSound sys)
    (unset : ¬ PointersSet sys call)
    (called : procCall sys call = some after) :
    ¬ Accounted after := by
  intro still
  cases call with
  | userAllocate provision =>
      obtain ⟨⟨result, last⟩, allocated, same⟩ :=
        Option.map_eq_some_iff.mp called
      cases same
      cases provision with
      | failed code => exact unset trivial
      | all addr pid thr =>
          obtain ⟨-, entered⟩ := procUserAllocate_cases allocated
          have new : last.procs addr = some (newProc pid thr sys.nextSerial) := by
            rw [entered]
            exact setProc_self
          have points := (still.procs new).back thr (List.mem_singleton_self thr)
          rw [entered] at points
          exact unset points
  | addThread addr thr =>
      obtain ⟨⟨result, last⟩, added, same⟩ := Option.map_eq_some_iff.mp called
      cases same
      simp only [PointersSet, Option.mem_def, not_forall] at unset
      obtain ⟨p, found, empty, different⟩ := unset
      rw [procAddThread_eq found (sound.procs found).referred, empty] at added
      cases added
      have isMaster := (still.procs setProc_self).master (List.cons_ne_nil thr [])
      exact different (List.mem_singleton.mp isMaster).symm
  | delThread => exact unset trivial
  | findByPid => exact unset trivial
  | findThread => exact unset trivial
  | refInc => exact unset trivial
  | refDec => exact unset trivial
  | threadRefs => exact unset trivial

/-- At the start no process is in use. -/
theorem procInit_sound
    (threadProc threadRefs : Nat → Nat) :
    SystemSound (procInit threadProc threadRefs) :=
  ⟨⟨nofun, nofun, nofun⟩, List.nodup_nil, nofun, nofun, fun _ _ => rfl⟩

end Steps

/-! ## Two runs -/

/--
Thread 7 points to the process it gets.  The process loses its master, is
referred to by number, and ends with the reference.
-/
def pointingCalls : List ProcCall :=
  [.userAllocate (.all 100 32 7), .addThread 100 8, .delThread 100 7,
    .findByPid 32, .delThread 100 8, .userAllocate (.all 200 33 9),
    .refDec 100]

/-- Thread 7 leaves one process for another one, where it is the first thread. -/
def movingCalls : List ProcCall :=
  [.userAllocate (.all 200 33 9), .addThread 200 7, .delThread 200 7,
    .userAllocate (.all 100 32 7), .addThread 100 8]

end RiscvWorkshop.Process
