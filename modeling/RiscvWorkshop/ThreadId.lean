import Mathlib
import RiscvWorkshop.Run
import RiscvWorkshop.KernelBase
import RiscvWorkshop.Bitops

namespace RiscvWorkshop.ThreadId

open Bitops

/-!
# Thread identifiers

Threads and processes take their numbers from one bitmap.  The numbers below
`THR_TID_RSV_ID_NR` are set in it from the start and are given to threads on
request; the last reference to a thread clears the bit of its number, whatever
number it is.
-/

/-- `THR_TID_RSV_ID_NR`. -/
def thrTidRsvIdNr : Nat := 32

/-- `THR_TID_AUTO`. -/
def thrTidAuto : Nat := 2 ^ 64 - 1

/-- `SCHED_VALID_PRIO`. -/
def schedValidPrio (prio : Nat) : Prop :=
  0 ≤ prio ∧ prio ≤ 255

/-- `SCHED_VALID_USER_PRIO`. -/
def schedValidUserPrio (prio : Nat) : Prop :=
  128 ≤ prio ∧ prio ≤ 255

instance (prio : Nat) : Decidable (schedValidPrio prio) :=
  inferInstanceAs (Decidable (_ ∧ _))

instance (prio : Nat) : Decidable (schedValidUserPrio prio) :=
  inferInstanceAs (Decidable (_ ∧ _))

/-- `THR_THRFLAGS_USER`. -/
def thrThrflagsUser : Nat := 1

/-- The fields of `thread` that its number and its life depend on. -/
structure Thread where
  id : Nat
  refs : Nat
deriving Repr, DecidableEq

/--
`thread_db`: the bitmap and the threads of the tree, with the numbers that
`thr_id_alloc` gave to processes and that have not come back.
-/
structure ThreadDb where
  idmap : Bitmap
  head : List Thread
  procIds : List Nat
deriving Repr, DecidableEq

/-- `thr_init`, for a bitmap of `THR_TID_MAX` numbers. -/
def thrInit (thrTidMax : Nat) : ThreadDb :=
  { idmap :=
      (List.range thrTidRsvIdNr).foldl (fun map i => bitopsSet i map)
        (bitopsZero thrTidMax)
    head := []
    procIds := [] }

/-- What a creation depends on beside its arguments. -/
structure Memory where
  threadObject : Bool
  kernelStack : Bool
deriving Repr, DecidableEq

namespace ThreadDb

/-- The numbers of the threads in the tree. -/
def threadIds (db : ThreadDb) : List Nat :=
  db.head.map (·.id)

/-- `alloc_new_tid_nolock`. -/
def allocNewTidNolock (db : ThreadDb) : Except Errno Nat × ThreadDb :=
  match bitopsFfc db.idmap with
  | 0 => (.error .enospc, db)
  | newid + 1 =>
      (.ok newid, { db with idmap := bitopsSet newid db.idmap })

/-- `release_tid_nolock`. -/
def releaseTidNolock (db : ThreadDb) (id : Nat) : ThreadDb :=
  { db with idmap := bitopsClr id db.idmap }

/-- `RB_INSERT` of a new thread, and the assertion that there was none. -/
def insertThread (db : ThreadDb) (id : Nat) : Option ThreadDb :=
  if id ∈ db.threadIds then
    none
  else
    some { db with head := { id, refs := 1 } :: db.head }

/-- `create_thread_common`, as far as the number of the thread goes. -/
def createThreadCommon
    (db : ThreadDb)
    (id : Nat)
    (stackGiven : Bool)
    (prio flags : Nat)
    (memory : Memory) : Option (Except Errno Nat × ThreadDb) :=
  if ¬ schedValidPrio prio then
    some (.error .einval, db)
  else if flags &&& thrThrflagsUser ≠ 0 ∧ ¬ schedValidUserPrio prio then
    some (.error .einval, db)
  else if memory.threadObject = false then
    some (.error .enomem, db)
  else if stackGiven = false ∧ memory.kernelStack = false then
    some (.error .enomem, db)
  else if thrTidRsvIdNr > id then
    (db.insertThread id).map fun db => (.ok id, db)
  else
    match db.allocNewTidNolock with
    | (.error code, db) => some (.error code, db)
    | (.ok newid, db) =>
        (db.insertThread newid).map fun db => (.ok newid, db)

/-- `thr_ref_inc` of a thread; a thread that is gone has no references. -/
def thrRefInc (db : ThreadDb) (id : Nat) : Bool × ThreadDb :=
  (decide (id ∈ db.threadIds),
    { db with
      head := db.head.map fun thr =>
        if thr.id = id then { thr with refs := thr.refs + 1 } else thr })

/-- `thr_ref_dec`: the last reference takes the thread and its number away. -/
def thrRefDec (db : ThreadDb) (id : Nat) : Option (Bool × ThreadDb) :=
  match db.head.find? (·.id = id) with
  | none => none
  | some thr =>
      if thr.refs = 1 then
        some (true,
          { db with head := db.head.erase thr }.releaseTidNolock thr.id)
      else
        some (false,
          { db with
            head := db.head.map fun thr =>
              if thr.id = id then { thr with refs := thr.refs - 1 } else thr })

/-- `thr_id_alloc`. -/
def thrIdAlloc (db : ThreadDb) : Except Errno Nat × ThreadDb :=
  match db.allocNewTidNolock with
  | (.error code, db) => (.error code, db)
  | (.ok newid, db) => (.ok newid, { db with procIds := newid :: db.procIds })

/-- `thr_id_release` of a number that `thr_id_alloc` gave out. -/
def thrIdRelease (db : ThreadDb) (id : Nat) : Option ThreadDb :=
  if id ∈ db.procIds then
    some
      ({ db with procIds := db.procIds.erase id }.releaseTidNolock id)
  else
    none

end ThreadDb

/-- The calls of a run. -/
inductive ThreadCall where
  | create
      (id : Nat)
      (stackGiven : Bool)
      (prio flags : Nat)
      (memory : Memory)
  | refInc (id : Nat)
  | refDec (id : Nat)
  | idAlloc
  | idRelease (id : Nat)
deriving Repr, DecidableEq

/-- One call. -/
def threadNext (db : ThreadDb) : ThreadCall → Option ThreadDb
  | .create id stackGiven prio flags memory =>
      (db.createThreadCommon id stackGiven prio flags memory).map (·.2)
  | .refInc id => some (db.thrRefInc id).2
  | .refDec id => (db.thrRefDec id).map (·.2)
  | .idAlloc => some db.thrIdAlloc.2
  | .idRelease id => db.thrIdRelease id

end RiscvWorkshop.ThreadId
