import Mathlib
import RiscvWorkshop.ThreadId

namespace RiscvWorkshop.ThreadId

open Bitops

/-!
# Which numbers are in use

A number in use is one of a thread in the tree or one that a process holds.
The bitmap says which are in use or reserved as long as no thread with a
reserved number goes away.
-/

/-- No last reference to a thread with a reserved number is returned. -/
def KeepsReserved (db : ThreadDb) : ThreadCall → Prop
  | .refDec id => ∀ thr ∈ db.head.find? (·.id = id),
      thr.refs = 1 → thrTidRsvIdNr ≤ id
  | .create .. => True
  | .refInc _ => True
  | .idAlloc => True
  | .idRelease _ => True

instance (db : ThreadDb) : ∀ call, Decidable (KeepsReserved db call)
  | .refDec _ => inferInstanceAs (Decidable (∀ thr ∈ _, _ → _))
  | .create .. => inferInstanceAs (Decidable True)
  | .refInc _ => inferInstanceAs (Decidable True)
  | .idAlloc => inferInstanceAs (Decidable True)
  | .idRelease _ => inferInstanceAs (Decidable True)

namespace ThreadDb

/-- The numbers of live threads and live processes. -/
def used (db : ThreadDb) : List Nat :=
  db.threadIds ++ db.procIds

/-- The numbers of the bitmap. -/
def size (db : ThreadDb) : Nat :=
  64 * db.idmap.length

/--
Live threads and processes have different numbers, and the bits that are set
are those of the reserved numbers and of the numbers in use.
-/
structure IdsSound (db : ThreadDb) : Prop where
  distinct : db.used.Nodup
  bits : ∀ n < db.size,
    isset db.idmap n = true ↔ n < thrTidRsvIdNr ∨ n ∈ db.used

/-- A number that is given out automatically was free and is not reserved. -/
structure FreeId (db : ThreadDb) (id : Nat) : Prop where
  unreserved : thrTidRsvIdNr ≤ id
  inMap : id < db.size
  unused : id ∉ db.used

/-- Every number that is not reserved is in use. -/
def Full (db : ThreadDb) : Prop :=
  ∀ n < db.size, n < thrTidRsvIdNr ∨ n ∈ db.used

/-- What the calls that give out numbers return. -/
structure GivesFree (db : ThreadDb) : Prop where
  idAlloc : ∀ id, db.thrIdAlloc.1 = .ok id → db.FreeId id
  idAlloc_full : ∀ code,
    db.thrIdAlloc.1 = .error code → code = .enospc ∧ db.Full
  create : ∀ id stackGiven prio flags memory newid after,
    thrTidRsvIdNr ≤ id →
    db.createThreadCommon id stackGiven prio flags memory =
      some (.ok newid, after) →
    db.FreeId newid
  create_full : ∀ id stackGiven prio flags memory after,
    db.createThreadCommon id stackGiven prio flags memory =
      some (.error .enospc, after) →
    db.Full

end ThreadDb

/-! ## The invariant -/

/-- The invariant of the bitmap and the numbers in use. -/
structure DbSound (thrTidMax : Nat) (db : ThreadDb) : Prop where
  length : db.idmap.length = bitmapArrayLen thrTidMax
  ids : db.IdsSound
  inMap : ∀ id ∈ db.used, id < db.size
  procs : ∀ id ∈ db.procIds, thrTidRsvIdNr ≤ id

section Steps

variable {thrTidMax : Nat}
variable {db after : ThreadDb}

/-- The reserved numbers have their bits in the map. -/
theorem rsv_lt_size
    (configured : 256 ≤ thrTidMax)
    (sound : DbSound thrTidMax db) :
    thrTidRsvIdNr < db.size := by
  rw [ThreadDb.size, sound.length, bitmapArrayLen, thrTidRsvIdNr]
  omega

/-- A call that leaves the map and the numbers in use. -/
theorem DbSound.same
    (sound : DbSound thrTidMax db)
    (idmap : after.idmap = db.idmap)
    (threadIds : after.threadIds = db.threadIds)
    (procIds : after.procIds = db.procIds) :
    DbSound thrTidMax after := by
  have used : after.used = db.used := by
    rw [ThreadDb.used, ThreadDb.used, threadIds, procIds]
  have size : after.size = db.size := by
    rw [ThreadDb.size, ThreadDb.size, idmap]
  refine ⟨idmap ▸ sound.length, ⟨used ▸ sound.ids.distinct, ?_⟩, ?_,
    procIds ▸ sound.procs⟩
  · rw [size, used, idmap]
    exact sound.ids.bits
  · rw [size, used]
    exact sound.inMap

/-- A free number that is taken, its bit set. -/
theorem DbSound.take
    (sound : DbSound thrTidMax db)
    {id : Nat}
    (free : db.FreeId id)
    (idmap : after.idmap = bitopsSet id db.idmap)
    (used : after.used.Perm (id :: db.used))
    (procs : ∀ other ∈ after.procIds, other = id ∨ other ∈ db.procIds) :
    DbSound thrTidMax after := by
  have size : after.size = db.size := by
    rw [ThreadDb.size, ThreadDb.size, idmap, bitopsSet_length]
  refine ⟨?_, ⟨?_, ?_⟩, ?_, ?_⟩
  · rw [idmap, bitopsSet_length, sound.length]
  · rw [used.nodup_iff, List.nodup_cons]
    exact ⟨free.unused, sound.ids.distinct⟩
  · intro n inMap
    rw [size] at inMap
    rw [idmap, isset_bitopsSet free.inMap, Bool.or_eq_true,
      sound.ids.bits n inMap, used.mem_iff, List.mem_cons,
      decide_eq_true_eq]
    exact or_left_comm
  · intro n member
    rw [used.mem_iff, List.mem_cons] at member
    rw [size]
    rcases member with same | old
    · exact same ▸ free.inMap
    · exact sound.inMap n old
  · intro other member
    rcases procs other member with same | old
    · exact same ▸ free.unreserved
    · exact sound.procs other old

/-- A reserved number that a thread takes; its bit is set already. -/
theorem DbSound.reserve
    (sound : DbSound thrTidMax db)
    {id : Nat}
    (reserved : id < thrTidRsvIdNr)
    (small : id < db.size)
    (unused : id ∉ db.threadIds)
    (idmap : after.idmap = db.idmap)
    (used : after.used = id :: db.used)
    (procIds : after.procIds = db.procIds) :
    DbSound thrTidMax after := by
  have size : after.size = db.size := by
    rw [ThreadDb.size, ThreadDb.size, idmap]
  refine ⟨idmap ▸ sound.length, ⟨?_, ?_⟩, ?_, procIds ▸ sound.procs⟩
  · rw [used, List.nodup_cons]
    refine ⟨fun member => ?_, sound.ids.distinct⟩
    rcases List.mem_append.mp member with isThread | isProc
    · exact unused isThread
    · exact absurd reserved (Nat.not_lt.mpr (sound.procs id isProc))
  · intro n inMap
    rw [size] at inMap
    rw [idmap, used, sound.ids.bits n inMap, List.mem_cons]
    constructor
    · exact Or.imp_right .inr
    · rintro (isReserved | same | old)
      · exact .inl isReserved
      · exact .inl (same ▸ reserved)
      · exact .inr old
  · intro n member
    rw [used, List.mem_cons] at member
    rw [size]
    rcases member with same | old
    · exact same ▸ small
    · exact sound.inMap n old

/-- A number that is given back, its bit cleared. -/
theorem DbSound.release
    (sound : DbSound thrTidMax db)
    {id : Nat}
    (unreserved : thrTidRsvIdNr ≤ id)
    (idmap : after.idmap = bitopsClr id db.idmap)
    (used : db.used.Perm (id :: after.used))
    (procs : ∀ other ∈ after.procIds, other ∈ db.procIds) :
    DbSound thrTidMax after := by
  have size : after.size = db.size := by
    rw [ThreadDb.size, ThreadDb.size, idmap, bitopsClr_length]
  have inUse : id ∈ db.used :=
    used.mem_iff.mpr List.mem_cons_self
  have distinct := sound.ids.distinct
  rw [used.nodup_iff, List.nodup_cons] at distinct
  have old : ∀ n ∈ after.used, n ∈ db.used :=
    fun n member => used.mem_iff.mpr (List.mem_cons_of_mem id member)
  refine ⟨?_, ⟨distinct.2, ?_⟩, ?_, ?_⟩
  · rw [idmap, bitopsClr_length, sound.length]
  · intro n inMap
    rw [size] at inMap
    rw [idmap, isset_bitopsClr (sound.inMap id inUse), Bool.and_eq_true,
      sound.ids.bits n inMap, used.mem_iff, List.mem_cons, Bool.not_eq_true',
      decide_eq_false_iff_not]
    constructor
    · rintro ⟨different, isReserved | same | still⟩
      · exact .inl isReserved
      · exact absurd same different
      · exact .inr still
    · rintro (isReserved | still)
      · exact ⟨Nat.ne_of_lt (Nat.lt_of_lt_of_le isReserved unreserved),
          .inl isReserved⟩
      · exact ⟨fun same => distinct.1 (same ▸ still), .inr (.inr still)⟩
  · intro n member
    rw [size]
    exact sound.inMap n (old n member)
  · exact fun other member => sound.procs other (procs other member)

/-- A number is free, or every number that is not reserved is in use. -/
theorem allocNewTidNolock_cases
    (sound : DbSound thrTidMax db) :
    (db.allocNewTidNolock = (.error .enospc, db) ∧ db.Full) ∨
      ∃ newid,
        db.FreeId newid ∧
          db.allocNewTidNolock =
            (.ok newid, { db with idmap := bitopsSet newid db.idmap }) := by
  rw [ThreadDb.allocNewTidNolock]
  rcases bitopsFfc_eq db.idmap with
    ⟨none, allSet⟩ | ⟨newid, inMap, found, clear⟩
  · rw [none]
    exact .inl ⟨rfl, fun n inMap =>
      (sound.ids.bits n inMap).mp (allSet n inMap)⟩
  · rw [found]
    have unset : ¬ (newid < thrTidRsvIdNr ∨ newid ∈ db.used) := by
      rw [← sound.ids.bits newid inMap, clear]
      exact Bool.false_ne_true
    rw [not_or] at unset
    exact .inr ⟨newid, ⟨Nat.not_lt.mp unset.1, inMap, unset.2⟩, rfl⟩

/-- A creation fails and changes nothing, or enters one thread. -/
theorem createThreadCommon_cases
    (sound : DbSound thrTidMax db)
    {id prio flags : Nat}
    {stackGiven : Bool}
    {memory : Memory}
    {result : Except Errno Nat}
    (created :
      db.createThreadCommon id stackGiven prio flags memory =
        some (result, after)) :
    (∃ code,
      result = .error code ∧ after = db ∧ (code = .enospc → db.Full)) ∨
      (id < thrTidRsvIdNr ∧
        id ∉ db.threadIds ∧
        result = .ok id ∧
        after = { db with head := { id, refs := 1 } :: db.head }) ∨
      (thrTidRsvIdNr ≤ id ∧
        ∃ newid,
          db.FreeId newid ∧
            result = .ok newid ∧
            after =
              { db with
                idmap := bitopsSet newid db.idmap
                head := { id := newid, refs := 1 } :: db.head }) := by
  rw [ThreadDb.createThreadCommon] at created
  split at created
  · cases created
    exact .inl ⟨.einval, rfl, rfl, nofun⟩
  split at created
  · cases created
    exact .inl ⟨.einval, rfl, rfl, nofun⟩
  split at created
  · cases created
    exact .inl ⟨.enomem, rfl, rfl, nofun⟩
  split at created
  · cases created
    exact .inl ⟨.enomem, rfl, rfl, nofun⟩
  split at created
  case isTrue reserved =>
    obtain ⟨entered, inserted, same⟩ := Option.map_eq_some_iff.mp created
    rw [ThreadDb.insertThread] at inserted
    split at inserted
    · cases inserted
    case isFalse unused =>
      cases inserted
      cases same
      exact .inr (.inl ⟨reserved, unused, rfl, rfl⟩)
  case isFalse automatic =>
    rcases allocNewTidNolock_cases sound with
      ⟨none, full⟩ | ⟨newid, free, allocated⟩
    · simp only [none, Option.some.injEq, Prod.mk.injEq] at created
      exact .inl ⟨.enospc, created.1.symm, created.2.symm, fun _ => full⟩
    · simp only [allocated] at created
      obtain ⟨entered, inserted, same⟩ := Option.map_eq_some_iff.mp created
      rw [ThreadDb.insertThread] at inserted
      split at inserted
      · cases inserted
      · cases inserted
        cases same
        exact .inr (.inr ⟨Nat.not_lt.mp automatic, newid, free, rfl, rfl⟩)

/-- What the calls return in a state of the invariant. -/
theorem DbSound.givesFree
    (sound : DbSound thrTidMax db) :
    db.GivesFree := by
  constructor
  case idAlloc =>
    intro id given
    rw [ThreadDb.thrIdAlloc] at given
    rcases allocNewTidNolock_cases sound with
      ⟨none, -⟩ | ⟨newid, free, allocated⟩
    · simp only [none, reduceCtorEq] at given
    · simp only [allocated, Except.ok.injEq] at given
      exact given ▸ free
  case idAlloc_full =>
    intro code given
    rw [ThreadDb.thrIdAlloc] at given
    rcases allocNewTidNolock_cases sound with
      ⟨none, full⟩ | ⟨newid, free, allocated⟩
    · simp only [none, Except.error.injEq] at given
      exact ⟨given.symm, full⟩
    · simp only [allocated, reduceCtorEq] at given
  case create =>
    intro id stackGiven prio flags memory newid last automatic created
    rcases createThreadCommon_cases sound created with
      ⟨code, failed, -⟩ | ⟨reserved, -⟩ | ⟨-, other, free, given, -⟩
    · cases failed
    · exact absurd reserved (Nat.not_lt.mpr automatic)
    · cases given
      exact free
  case create_full =>
    intro id stackGiven prio flags memory last created
    rcases createThreadCommon_cases sound created with
      ⟨code, failed, -, full⟩ | ⟨-, -, given, -⟩ | ⟨-, other, -, given, -⟩
    · cases failed
      exact full rfl
    · cases given
    · cases given

/-- More or fewer references leave the numbers of the threads. -/
theorem threadIds_map
    {change : Thread → Thread}
    (keeps : ∀ thr, (change thr).id = thr.id)
    (head : List Thread) :
    (head.map change).map (·.id) = head.map (·.id) := by
  rw [List.map_map]
  exact List.map_congr_left fun thr _ => keeps thr

/-- A thread that is found goes out of the numbers in use. -/
theorem used_erase
    {thr : Thread}
    (member : thr ∈ db.head) :
    db.used.Perm
      (thr.id :: { db with head := db.head.erase thr : ThreadDb }.used) := by
  have moved := (List.perm_cons_erase member).map fun thr => thr.id
  exact moved.append_right db.procIds

/-- Every call that keeps the reserved threads keeps the invariant. -/
theorem DbSound.step
    {call : ThreadCall}
    (configured : 256 ≤ thrTidMax)
    (sound : DbSound thrTidMax db)
    (keeps : KeepsReserved db call)
    (called : threadNext db call = some after) :
    DbSound thrTidMax after := by
  cases call with
  | create id stackGiven prio flags memory =>
      obtain ⟨⟨result, last⟩, created, same⟩ := Option.map_eq_some_iff.mp called
      cases same
      rcases createThreadCommon_cases sound created with
        ⟨code, -, unchanged, -⟩ | ⟨reserved, unused, -, entered⟩ |
          ⟨-, newid, free, -, entered⟩
      · exact unchanged ▸ sound
      · subst entered
        exact sound.reserve reserved
          (reserved.trans (rsv_lt_size configured sound)) unused rfl rfl rfl
      · subst entered
        exact sound.take free rfl (List.Perm.refl _) fun _ => .inr
  | refInc id =>
      cases called
      refine sound.same rfl (threadIds_map (fun thr => ?_) db.head) rfl
      split <;> rfl
  | refDec id =>
      obtain ⟨⟨result, last⟩, returned, same⟩ := Option.map_eq_some_iff.mp called
      cases same
      rw [ThreadDb.thrRefDec] at returned
      split at returned
      · cases returned
      case h_2 thr found =>
        have isId : thr.id = id := by
          simpa using List.find?_some found
        split at returned
        case isTrue isLast =>
          cases returned
          refine sound.release (isId ▸ keeps thr found isLast) rfl
            (used_erase (List.mem_of_find?_eq_some found))
            fun _ member => member
        case isFalse =>
          cases returned
          refine sound.same rfl (threadIds_map (fun thr => ?_) db.head) rfl
          split <;> rfl
  | idAlloc =>
      cases called
      rw [ThreadDb.thrIdAlloc]
      rcases allocNewTidNolock_cases sound with
        ⟨none, -⟩ | ⟨newid, free, allocated⟩
      · rw [none]
        exact sound
      · rw [allocated]
        exact sound.take free rfl List.perm_middle fun other member =>
          List.mem_cons.mp member
  | idRelease id =>
      rw [threadNext, ThreadDb.thrIdRelease] at called
      split at called
      case isTrue held =>
        cases called
        refine sound.release (sound.procs id held) rfl ?_ fun other member =>
          List.mem_of_mem_erase member
        exact ((List.perm_cons_erase held).append_left db.threadIds).trans
          List.perm_middle
      case isFalse => cases called

/-- The last reference to a reserved thread clears a bit that must be set. -/
theorem not_idsSound_of_reserved
    {call : ThreadCall}
    (configured : 256 ≤ thrTidMax)
    (sound : DbSound thrTidMax db)
    (loses : ¬ KeepsReserved db call)
    (called : threadNext db call = some after) :
    ¬ after.IdsSound := by
  cases call with
  | refDec id =>
      simp only [KeepsReserved, not_forall] at loses
      obtain ⟨thr, found, isLast, reserved⟩ := loses
      have isId : thr.id = id := by
        simpa using List.find?_some found
      have small : id < db.size :=
        (Nat.not_le.mp reserved).trans (rsv_lt_size configured sound)
      rw [threadNext, ThreadDb.thrRefDec, found] at called
      simp only [isLast, if_true, Option.map_some, Option.some.injEq] at called
      subst called
      intro still
      have cleared : isset (bitopsClr id db.idmap) id = false := by
        rw [isset_bitopsClr small]
        simp
      have inMap : id < 64 * (bitopsClr thr.id db.idmap).length := by
        rw [bitopsClr_length]
        exact small
      have set := (still.bits id inMap).mpr (.inl (Nat.not_le.mp reserved))
      change isset (bitopsClr thr.id db.idmap) id = true at set
      rw [isId, cleared] at set
      cases set
  | create => exact absurd trivial loses
  | refInc => exact absurd trivial loses
  | idAlloc => exact absurd trivial loses
  | idRelease => exact absurd trivial loses

/-- Setting bits one after the other. -/
theorem isset_foldl
    (bits : List Nat)
    (map : Bitmap)
    (inMap : ∀ n ∈ bits, n < 64 * map.length)
    (n : Nat) :
    isset (bits.foldl (fun map i => bitopsSet i map) map) n = true ↔
      n ∈ bits ∨ isset map n = true := by
  induction bits generalizing map with
  | nil =>
      simp
  | cons first rest inductionHypothesis =>
      have firstInMap := inMap first List.mem_cons_self
      rw [List.foldl_cons, inductionHypothesis _ fun other member => ?_,
        isset_bitopsSet firstInMap, Bool.or_eq_true, decide_eq_true_eq,
        List.mem_cons, or_assoc, or_left_comm]
      rw [bitopsSet_length]
      exact inMap other (List.mem_cons_of_mem first member)

theorem foldl_length
    (bits : List Nat)
    (map : Bitmap) :
    (bits.foldl (fun map i => bitopsSet i map) map).length = map.length := by
  induction bits generalizing map with
  | nil =>
      rfl
  | cons first rest inductionHypothesis =>
      rw [List.foldl_cons, inductionHypothesis, bitopsSet_length]

/-- At the start the reserved bits are set, and no number is in use. -/
theorem thrInit_sound
    (configured : 256 ≤ thrTidMax) :
    DbSound thrTidMax (thrInit thrTidMax) := by
  have zero : (bitopsZero thrTidMax).length = bitmapArrayLen thrTidMax :=
    List.length_replicate
  have large : thrTidRsvIdNr ≤ 64 * bitmapArrayLen thrTidMax := by
    rw [bitmapArrayLen, thrTidRsvIdNr]
    omega
  refine ⟨?_, ⟨List.nodup_nil, fun n _ => ?_⟩, nofun, nofun⟩
  · rw [thrInit, foldl_length, zero]
  · rw [thrInit, isset_foldl, isset_bitopsZero, List.mem_range]
    · simp [ThreadDb.used, ThreadDb.threadIds]
    · intro other member
      rw [zero]
      exact (List.mem_range.mp member).trans_le large

/--
In every run that keeps the reserved threads the numbers in use differ, the
bits are those of reserved and used numbers, and what is given out is free;
and the next call keeps this exactly when it keeps the reserved threads too.
-/
theorem ids_of_runs
    {calls : List ThreadCall}
    (configured : 256 ≤ thrTidMax ∧ thrTidMax ≤ 4096)
    (run :
      Run (Guarded KeepsReserved (StepOf threadNext)) (thrInit thrTidMax)
        calls db) :
    db.IdsSound ∧
      db.GivesFree ∧
      ∀ call after,
        threadNext db call = some after →
        (after.IdsSound ↔ KeepsReserved db call) := by
  have sound : DbSound thrTidMax db :=
    run.invariant (thrInit_sound configured.1) fun sound stepped =>
      sound.step configured.1 stepped.1 stepped.2
  refine ⟨sound.ids, sound.givesFree, fun call after called => ?_⟩
  refine ⟨fun still => ?_, fun keeps =>
    (sound.step configured.1 keeps called).ids⟩
  by_contra loses
  exact not_idsSound_of_reserved configured.1 sound loses called still

end Steps

/-! ## Two runs -/

/-- Room for every thread. -/
def enough : Memory := ⟨true, true⟩

/-- A reserved and an automatic thread, of which the latter goes away. -/
def keepingCalls : List ThreadCall :=
  [.create 2 false 0 0 enough, .create thrTidAuto false 0 0 enough, .idAlloc,
    .refInc 32, .refDec 32, .refDec 32]

/-- The process keeps its number, and the one of the thread is given again. -/
theorem ids_of_runs_keeping :
    ∃ db,
      execute (guardNext KeepsReserved threadNext) (thrInit 256)
          keepingCalls = some db ∧
        db.used = [2, 33] ∧
        db.IdsSound ∧
        db.thrIdAlloc.1 = .ok 32 ∧
        db.FreeId 32 := by
  obtain ⟨db, executed⟩ : ∃ db,
      execute (guardNext KeepsReserved threadNext) (thrInit 256)
        keepingCalls = some db :=
    Option.isSome_iff_exists.mp (by decide +kernel)
  have facts :
      (execute (guardNext KeepsReserved threadNext) (thrInit 256)
        keepingCalls).map
          (fun db => (db.used, db.thrIdAlloc.1.toOption)) =
        some ([2, 33], some 32) := by
    decide +kernel
  rw [executed, Option.map_some, Option.some.injEq] at facts
  simp only [Prod.mk.injEq] at facts
  obtain ⟨sound, gives, -⟩ :=
    ids_of_runs ⟨by decide, by decide⟩ (Run.guarded_of_execute executed)
  have given : db.thrIdAlloc.1 = .ok 32 := by
    cases result : db.thrIdAlloc.1 with
    | error code =>
        rw [result] at facts
        cases facts.2
    | ok id =>
        rw [result] at facts
        cases facts.2
        rfl
  exact ⟨db, executed, facts.1, sound, given, gives.idAlloc 32 given⟩

/--
A thread with the reserved number 5 goes away: its bit is clear, and the
number is given to a process.
-/
theorem reserved_id_given_out :
    ((execute threadNext (thrInit 1024)
        [.create 5 false 0 0 enough, .refDec 5]).map
      fun db => (isset db.idmap 5, db.thrIdAlloc.1.toOption)) =
      some (false, some 5) := by
  decide +kernel

end RiscvWorkshop.ThreadId
