import Mathlib
import RiscvWorkshop.SlabCache

namespace RiscvWorkshop.Kmem

/-!
# Counts, objects and queues of a slab

What a slab counts is reserved or held.  It has an object for each reservation
as long as no allocation counts on an object that a free did not put back yet,
and it is linked once as long as the free that empties it is alone.
-/

namespace SlabCall

/-- An allocation that has reserved an object of a slab. -/
def reservedAt (s : Nat) : SlabCall → Bool
  | .reserved t => t = s
  | _ => false

/-- A free of an object of a slab that is not put back yet. -/
def countedAt (s : Nat) : SlabCall → Bool
  | .freeCounted t _ => t = s
  | _ => false

/-- A free that has put its object back and is not at its end. -/
def putAt (s : Nat) : SlabCall → Bool
  | .freePut t => t = s
  | _ => false

/-- A slab that was made and not attached, or is to be released. -/
def outsideAt (s : Nat) : SlabCall → Bool
  | .attaching t => t = s
  | .releasing t _ => t = s
  | _ => false

/-- The slab that a call is about. -/
def slab? : SlabCall → Option Nat
  | .growing => none
  | .attaching s => some s
  | .reserved s => some s
  | .freeCounted s _ => some s
  | .freePut s => some s
  | .reaping _ => none
  | .releasing s _ => some s

end SlabCall

namespace KmemCache

/-- The reservations of a slab. -/
def reservedOf (cache : KmemCache) (s : Nat) : Nat :=
  cache.calls.countP (SlabCall.reservedAt s)

/-- The frees of a slab that did not put their object back. -/
def countedOf (cache : KmemCache) (s : Nat) : Nat :=
  cache.calls.countP (SlabCall.countedAt s)

/-- The frees of a slab that did. -/
def putOf (cache : KmemCache) (s : Nat) : Nat :=
  cache.calls.countP (SlabCall.putAt s)

/-- The calls that have a slab off the queues. -/
def outsideOf (cache : KmemCache) (s : Nat) : Nat :=
  cache.calls.countP (SlabCall.outsideAt s)

/-- The objects of a slab that callers have. -/
def heldOf (cache : KmemCache) (s : Nat) : Nat :=
  cache.held.countP (·.1 = s)

end KmemCache

/--
An allocation reserves in a slab that has an object more than reservations, and
a free that empties a slab is the only one in progress there.
-/
def Uncontended (cache : KmemCache) : SlabAction → Prop
  | .alloc => ∀ s ∈ cache.partialQue.head?, ∀ sinfo ∈ cache.slabs s,
      cache.reservedOf s < sinfo.objects.length
  | .free s _ => ∀ sinfo ∈ cache.slabs s,
      sinfo.count = 1 → cache.countedOf s + cache.putOf s = 0
  | .grow _ => True
  | .attach _ => True
  | .allocSlabObj _ => True
  | .freeSlabObj _ _ => True
  | .freeEnd _ => True
  | .reap _ => True
  | .reapNext _ => True
  | .freeSlabInfo _ _ => True

instance (cache : KmemCache) : ∀ action, Decidable (Uncontended cache action)
  | .alloc => inferInstanceAs (Decidable (∀ s ∈ _, ∀ sinfo ∈ _, _))
  | .free _ _ => inferInstanceAs (Decidable (∀ sinfo ∈ _, _ → _))
  | .grow _ => inferInstanceAs (Decidable True)
  | .attach _ => inferInstanceAs (Decidable True)
  | .allocSlabObj _ => inferInstanceAs (Decidable True)
  | .freeSlabObj _ _ => inferInstanceAs (Decidable True)
  | .freeEnd _ => inferInstanceAs (Decidable True)
  | .reap _ => inferInstanceAs (Decidable True)
  | .reapNext _ => inferInstanceAs (Decidable True)
  | .freeSlabInfo _ _ => inferInstanceAs (Decidable True)

/--
Reservations find objects, no slab is linked twice, a slab with a free in
progress is not released, and without calls in progress every slab is on the
queue of its count.
-/
structure SlabsSafe (cache : KmemCache) : Prop where
  finds : ∀ s, .reserved s ∈ cache.calls →
    ∃ sinfo, cache.slabs s = some sinfo ∧
      cache.reservedOf s ≤ sinfo.objects.length
  once : cache.queues.Nodup
  kept : ∀ s, 0 < cache.countedOf s + cache.putOf s →
    cache.slabs s ≠ none ∧ cache.outsideOf s = 0
  quiet : cache.calls = [] →
    ∀ s sinfo, cache.slabs s = some sinfo →
      (s ∈ cache.partialQue ↔
        0 < sinfo.count ∧ sinfo.count < cache.objsPerSlab) ∧
      (s ∈ cache.fullQue ↔ sinfo.count = cache.objsPerSlab) ∧
      (s ∈ cache.freeQue ↔ sinfo.count = 0)

/-! ## The invariant -/

/-- A slab, its objects and the queue that it is on. -/
structure SlabFits (cache : KmemCache) (s : Nat) (sinfo : Slab) : Prop where
  count : sinfo.count = cache.reservedOf s + cache.heldOf s
  objects :
    sinfo.objects.length + cache.heldOf s + cache.countedOf s =
      cache.objsPerSlab
  room : cache.reservedOf s ≤ sinfo.objects.length
  outside : cache.outsideOf s ≠ 0 → sinfo.count = 0
  ending : sinfo.count = 0 →
    cache.countedOf s + cache.putOf s + cache.outsideOf s ≤ 1
  onPartial : s ∈ cache.partialQue ↔
    0 < sinfo.count ∧ sinfo.count < cache.objsPerSlab
  onFull : s ∈ cache.fullQue ↔ sinfo.count = cache.objsPerSlab
  onFree : s ∈ cache.freeQue ↔
    sinfo.count = 0 ∧
      cache.countedOf s + cache.putOf s + cache.outsideOf s = 0

/-- A slab that there is not. -/
structure SlabAbsent (cache : KmemCache) (s : Nat) : Prop where
  reserved : cache.reservedOf s = 0
  counted : cache.countedOf s = 0
  put : cache.putOf s = 0
  outside : cache.outsideOf s = 0
  held : cache.heldOf s = 0
  unlinked : s ∉ cache.queues

/-- The invariant of the slabs other than one. -/
structure OthersSound (cache : KmemCache) (s : Nat) : Prop where
  slabs : ∀ {other sinfo}, other ≠ s →
    cache.slabs other = some sinfo → SlabFits cache other sinfo
  absent : ∀ {other}, other ≠ s →
    cache.slabs other = none → SlabAbsent cache other

/-- The invariant of a cache. -/
structure CacheSound (cache : KmemCache) : Prop where
  positive : 0 < cache.objsPerSlab
  slabs : ∀ {s sinfo}, cache.slabs s = some sinfo → SlabFits cache s sinfo
  absent : ∀ {s}, cache.slabs s = none → SlabAbsent cache s
  once : cache.queues.Nodup

section Steps

variable {cache after : KmemCache}
variable {s other : Nat}
variable {sinfo : Slab}

/-- The slabs other than one, of a sound cache. -/
theorem CacheSound.others
    (sound : CacheSound cache)
    (s : Nat) :
    OthersSound cache s :=
  ⟨fun _ found => sound.slabs found, fun _ found => sound.absent found⟩

/-- A slab that fits makes the cache whole again. -/
theorem OthersSound.whole
    (others : OthersSound cache s)
    (positive : 0 < cache.objsPerSlab)
    (found : cache.slabs s = some sinfo)
    (fits : SlabFits cache s sinfo)
    (once : cache.queues.Nodup) :
    CacheSound cache := by
  refine ⟨positive, fun {other _} there => ?_, fun {other} there => ?_, once⟩
  · by_cases same : other = s
    · subst same
      rw [found, Option.some.injEq] at there
      exact there ▸ fits
    · exact others.slabs same there
  · refine others.absent (fun same => ?_) there
    rw [same, found] at there
    cases there

/-- Without the slab the cache is whole. -/
theorem OthersSound.without
    (others : OthersSound cache s)
    (positive : 0 < cache.objsPerSlab)
    (gone : cache.slabs s = none)
    (absent : SlabAbsent cache s)
    (once : cache.queues.Nodup) :
    CacheSound cache := by
  refine ⟨positive, fun {other _} there => ?_, fun {other} there => ?_, once⟩
  · refine others.slabs (fun same => ?_) there
    rw [same, gone] at there
    cases there
  · by_cases same : other = s
    · subst same
      exact absent
    · exact others.absent same there

/-- What a step leaves of a slab that it is not about. -/
structure SameAt (cache after : KmemCache) (s : Nat) : Prop where
  slabs : after.slabs s = cache.slabs s
  reserved : after.reservedOf s = cache.reservedOf s
  counted : after.countedOf s = cache.countedOf s
  put : after.putOf s = cache.putOf s
  outside : after.outsideOf s = cache.outsideOf s
  held : after.heldOf s = cache.heldOf s
  onPartial : s ∈ after.partialQue ↔ s ∈ cache.partialQue
  onFull : s ∈ after.fullQue ↔ s ∈ cache.fullQue
  onFree : s ∈ after.freeQue ↔ s ∈ cache.freeQue

/-- A slab that a step is not about fits after it. -/
theorem SlabFits.same
    (fits : SlabFits cache s sinfo)
    (size : after.objsPerSlab = cache.objsPerSlab)
    (left : SameAt cache after s) :
    SlabFits after s sinfo := by
  obtain ⟨count, objects, room, outside, ending, onPartial, onFull, onFree⟩ :=
    fits
  constructor
  case count => rw [left.reserved, left.held, count]
  case objects => rw [left.held, left.counted, size, objects]
  case room => rw [left.reserved]; exact room
  case outside => rw [left.outside]; exact outside
  case ending => rw [left.counted, left.put, left.outside]; exact ending
  case onPartial => rw [left.onPartial, size]; exact onPartial
  case onFull => rw [left.onFull, size]; exact onFull
  case onFree =>
    rw [left.onFree, left.counted, left.put, left.outside]
    exact onFree

/-- A slab that there is not is not there after a step about another. -/
theorem SlabAbsent.same
    (absent : SlabAbsent cache s)
    (left : SameAt cache after s) :
    SlabAbsent after s := by
  obtain ⟨reserved, counted, put, outside, held, unlinked⟩ := absent
  refine ⟨left.reserved.trans reserved, left.counted.trans counted,
    left.put.trans put, left.outside.trans outside, left.held.trans held, ?_⟩
  simp only [KmemCache.queues, List.mem_append] at unlinked ⊢
  rw [left.onPartial, left.onFull, left.onFree]
  exact unlinked

/-- A step about one slab leaves the others sound. -/
theorem OthersSound.same
    (others : OthersSound cache s)
    (size : after.objsPerSlab = cache.objsPerSlab)
    (same : ∀ other, other ≠ s → SameAt cache after other) :
    OthersSound after s := by
  refine ⟨fun {other sinfo} different there => ?_,
    fun {other} different there => ?_⟩
  · have left := same other different
    exact (others.slabs different (left.slabs ▸ there)).same size left
  · have left := same other different
    exact (others.absent different (left.slabs ▸ there)).same left

/-! ## Calls that go on -/

/-- How much a call that goes on or ends counts. -/
def weight (p : SlabCall → Bool) : Option SlabCall → Nat
  | none => 0
  | some call => (p call).toNat

/-- A call is counted where it is now, and no longer where it was. -/
theorem countP_goOn
    (p : SlabCall → Bool)
    (cache : KmemCache)
    {before : Option SlabCall}
    (there : ∀ call ∈ before, call ∈ cache.calls)
    (now : Option SlabCall) :
    (cache.goOn before now).calls.countP p + weight p before =
      cache.calls.countP p + weight p now := by
  have added : now.toList.countP p = weight p now := by
    cases now with
    | none => rfl
    | some call =>
        rw [Option.toList_some, List.countP_singleton, weight]
        cases p call <;> rfl
  cases before with
  | none =>
      change (now.toList ++ cache.calls).countP p + 0 = _
      rw [List.countP_append, added]
      omega
  | some call =>
      change (now.toList ++ cache.calls.erase call).countP p + (p call).toNat = _
      have moved := (List.perm_cons_erase (there call rfl)).countP_eq p
      rw [List.countP_cons] at moved
      rw [List.countP_append, added]
      cases isCounted : p call with
      | true =>
          simp only [isCounted, if_true] at moved
          simp only [Bool.toNat_true]
          omega
      | false =>
          simp only [isCounted, Bool.false_eq_true, if_false] at moved
          simp only [Bool.toNat_false]
          omega

/-- A call about another slab does not count. -/
theorem weight_of_ne
    {call : Option SlabCall}
    (different : ∀ c ∈ call, c.slab? ≠ some s) :
    weight (SlabCall.reservedAt s) call = 0 ∧
      weight (SlabCall.countedAt s) call = 0 ∧
      weight (SlabCall.putAt s) call = 0 ∧
      weight (SlabCall.outsideAt s) call = 0 := by
  cases call with
  | none => exact ⟨rfl, rfl, rfl, rfl⟩
  | some c =>
      have different := different c rfl
      cases c with
      | growing => exact ⟨rfl, rfl, rfl, rfl⟩
      | reaping => exact ⟨rfl, rfl, rfl, rfl⟩
      | _ =>
          simp only [SlabCall.slab?, ne_eq, Option.some.injEq] at different
          simp [weight, SlabCall.reservedAt, SlabCall.countedAt,
            SlabCall.putAt, SlabCall.outsideAt, different]

/-- Where no call goes on. -/
theorem no_call
    {p : SlabCall → Prop} :
    ∀ call ∈ (none : Option SlabCall), p call :=
  fun _ no => nomatch no

/-- Where one does. -/
theorem a_call
    {p : SlabCall → Prop}
    {call : SlabCall}
    (holds : p call) :
    ∀ c ∈ some call, p c := by
  intro c same
  cases same
  exact holds

/-- A call is about one slab. -/
theorem a_call_about
    {call : SlabCall}
    (about : call.slab? = some s) :
    ∀ other, other ≠ s → ∀ c ∈ some call, c.slab? ≠ some other := by
  intro other different
  refine a_call fun same => different ?_
  rw [about, Option.some.injEq] at same
  exact same.symm

/-- What a call that goes on changes in the counts of a slab. -/
structure Counted
    (cache after : KmemCache)
    (before now : Option SlabCall)
    (s : Nat) : Prop where
  reserved :
    after.reservedOf s + weight (SlabCall.reservedAt s) before =
      cache.reservedOf s + weight (SlabCall.reservedAt s) now
  counted :
    after.countedOf s + weight (SlabCall.countedAt s) before =
      cache.countedOf s + weight (SlabCall.countedAt s) now
  put :
    after.putOf s + weight (SlabCall.putAt s) before =
      cache.putOf s + weight (SlabCall.putAt s) now
  outside :
    after.outsideOf s + weight (SlabCall.outsideAt s) before =
      cache.outsideOf s + weight (SlabCall.outsideAt s) now

theorem counted_goOn
    {before now : Option SlabCall}
    (calls : after.calls = (cache.goOn before now).calls)
    (there : ∀ call ∈ before, call ∈ cache.calls)
    (s : Nat) :
    Counted cache after before now s := by
  constructor
  case reserved =>
    rw [KmemCache.reservedOf, calls]
    exact countP_goOn _ cache there now
  case counted =>
    rw [KmemCache.countedOf, calls]
    exact countP_goOn _ cache there now
  case put =>
    rw [KmemCache.putOf, calls]
    exact countP_goOn _ cache there now
  case outside =>
    rw [KmemCache.outsideOf, calls]
    exact countP_goOn _ cache there now

/-- A step whose call is not about a slab, which stays on its queue. -/
theorem Counted.same
    {before now : Option SlabCall}
    (counts : Counted cache after before now s)
    (notBefore : ∀ c ∈ before, c.slab? ≠ some s)
    (notNow : ∀ c ∈ now, c.slab? ≠ some s)
    (slabs : after.slabs s = cache.slabs s)
    (held : after.heldOf s = cache.heldOf s)
    (onPartial : s ∈ after.partialQue ↔ s ∈ cache.partialQue)
    (onFull : s ∈ after.fullQue ↔ s ∈ cache.fullQue)
    (onFree : s ∈ after.freeQue ↔ s ∈ cache.freeQue) :
    SameAt cache after s := by
  obtain ⟨reserved, counted, put, outside⟩ := counts
  obtain ⟨r, c, p, o⟩ := weight_of_ne notBefore
  obtain ⟨r', c', p', o'⟩ := weight_of_ne notNow
  rw [r, r'] at reserved
  rw [c, c'] at counted
  rw [p, p'] at put
  rw [o, o'] at outside
  exact ⟨slabs, reserved, counted, put, outside, held, onPartial, onFull,
    onFree⟩

/-- A step that is about one slab, with the call that goes on. -/
structure Touches
    (cache after : KmemCache)
    (s : Nat)
    (before now : Option SlabCall) : Prop where
  size : after.objsPerSlab = cache.objsPerSlab
  calls : after.calls = (cache.goOn before now).calls
  there : ∀ call ∈ before, call ∈ cache.calls
  before : ∀ other, other ≠ s → ∀ call ∈ before, call.slab? ≠ some other
  now : ∀ other, other ≠ s → ∀ call ∈ now, call.slab? ≠ some other
  slabs : ∀ other, other ≠ s → after.slabs other = cache.slabs other
  held : ∀ other, other ≠ s → after.heldOf other = cache.heldOf other
  onPartial : ∀ other, other ≠ s →
    (other ∈ after.partialQue ↔ other ∈ cache.partialQue)
  onFull : ∀ other, other ≠ s →
    (other ∈ after.fullQue ↔ other ∈ cache.fullQue)
  onFree : ∀ other, other ≠ s →
    (other ∈ after.freeQue ↔ other ∈ cache.freeQue)

/-- What the call changes in the counts of a slab. -/
theorem Touches.counted
    {before now : Option SlabCall}
    (touches : Touches cache after s before now)
    (other : Nat) :
    Counted cache after before now other :=
  counted_goOn touches.calls touches.there other

/-- The other slabs stay sound. -/
theorem Touches.others
    {before now : Option SlabCall}
    (touches : Touches cache after s before now)
    (others : OthersSound cache s) :
    OthersSound after s :=
  others.same touches.size fun other different =>
    (touches.counted other).same (touches.before other different)
      (touches.now other different) (touches.slabs other different)
      (touches.held other different) (touches.onPartial other different)
      (touches.onFull other different) (touches.onFree other different)

/-- A call that is about no slab goes on. -/
theorem CacheSound.goOn
    (sound : CacheSound cache)
    {before now : Option SlabCall}
    (there : ∀ call ∈ before, call ∈ cache.calls)
    (noBefore : ∀ call ∈ before, call.slab? = none)
    (noNow : ∀ call ∈ now, call.slab? = none) :
    CacheSound (cache.goOn before now) := by
  have same (s : Nat) : SameAt cache (cache.goOn before now) s := by
    refine (counted_goOn rfl there s).same ?_ ?_ rfl rfl Iff.rfl Iff.rfl Iff.rfl
    · intro call member about
      rw [noBefore call member] at about
      cases about
    · intro call member about
      rw [noNow call member] at about
      cases about
  exact ⟨sound.positive, fun found => (sound.slabs found).same rfl (same _),
    fun gone => (sound.absent gone).same (same _), sound.once⟩

/-! ## Queues -/

/-- A slab that is on no queue goes to the end of the partial queue. -/
theorem nodup_partialQue
    {onPartial onFull onFree : List Nat}
    (once : (onPartial ++ onFull ++ onFree).Nodup)
    (unlinked : s ∉ onPartial ++ onFull ++ onFree) :
    (onPartial ++ [s] ++ onFull ++ onFree).Nodup := by
  have moved :
      (onPartial ++ [s] ++ onFull ++ onFree).Perm
        (s :: (onPartial ++ onFull ++ onFree)) := by
    simp only [List.append_assoc, List.singleton_append]
    exact List.perm_middle
  exact moved.nodup_iff.mpr (List.nodup_cons.mpr ⟨unlinked, once⟩)

/-- A slab that is on no queue goes to the end of the full queue. -/
theorem nodup_fullQue
    {onPartial onFull onFree : List Nat}
    (once : (onPartial ++ onFull ++ onFree).Nodup)
    (unlinked : s ∉ onPartial ++ onFull ++ onFree) :
    (onPartial ++ (onFull ++ [s]) ++ onFree).Nodup := by
  have moved :
      (onPartial ++ (onFull ++ [s]) ++ onFree).Perm
        (s :: (onPartial ++ onFull ++ onFree)) := by
    rw [← List.append_assoc, List.append_assoc (onPartial ++ onFull)]
    exact List.perm_middle
  exact moved.nodup_iff.mpr (List.nodup_cons.mpr ⟨unlinked, once⟩)

/-- A slab that is on no queue goes to the end of the free queue. -/
theorem nodup_freeQue
    {onPartial onFull onFree : List Nat}
    (once : (onPartial ++ onFull ++ onFree).Nodup)
    (unlinked : s ∉ onPartial ++ onFull ++ onFree) :
    (onPartial ++ onFull ++ (onFree ++ [s])).Nodup := by
  have moved :
      (onPartial ++ onFull ++ (onFree ++ [s])).Perm
        (s :: (onPartial ++ onFull ++ onFree)) := by
    rw [← List.append_assoc]
    exact List.perm_append_singleton s _
  exact moved.nodup_iff.mpr (List.nodup_cons.mpr ⟨unlinked, once⟩)

/-- A slab that is on no queue. -/
theorem not_mem_queues :
    s ∉ cache.queues ↔
      s ∉ cache.partialQue ∧ s ∉ cache.fullQue ∧ s ∉ cache.freeQue := by
  simp only [KmemCache.queues, List.mem_append, not_or, and_assoc]

/-- A slab that was taken off its queue is on none. -/
theorem unlink_queues
    (once : cache.queues.Nodup) :
    (cache.unlink s).queues.Nodup ∧ s ∉ (cache.unlink s).queues := by
  obtain ⟨used, free, -⟩ := List.nodup_append.mp once
  obtain ⟨half, full, -⟩ := List.nodup_append.mp used
  constructor
  · refine once.sublist ?_
    exact ((List.erase_sublist ..).append (List.erase_sublist ..)).append
      (List.erase_sublist ..)
  · simp only [KmemCache.queues, KmemCache.unlink, List.mem_append, not_or]
    exact ⟨⟨half.not_mem_erase, full.not_mem_erase⟩, free.not_mem_erase⟩

/-- The other slabs stay where they are when one is appended. -/
theorem mem_append_of_ne
    {queue : List Nat}
    (different : other ≠ s) :
    other ∈ queue ++ [s] ↔ other ∈ queue := by
  rw [List.mem_append, List.mem_singleton, or_iff_left different]

/-! ## Allocation -/

/-- A slab on the partial queue that an object is reserved of. -/
structure Reservable (cache : KmemCache) (s : Nat) (sinfo : Slab) : Prop where
  count : sinfo.count = cache.reservedOf s + cache.heldOf s
  objects :
    sinfo.objects.length + cache.heldOf s + cache.countedOf s =
      cache.objsPerSlab
  room : cache.reservedOf s < sinfo.objects.length
  onPartial : s ∈ cache.partialQue
  notFull : s ∉ cache.fullQue
  notFree : s ∉ cache.freeQue

/-- What `reserve` leaves, on the queue of the new count. -/
theorem reserve_spec
    {before : Option SlabCall}
    (there : ∀ call ∈ before, call ∈ cache.calls)
    (attaching : ∀ call ∈ before, call = .attaching s)
    (once : cache.queues.Nodup)
    (found : cache.slabs s = some sinfo)
    (onPartial : s ∈ cache.partialQue)
    (notFull : s ∉ cache.fullQue)
    (notFree : s ∉ cache.freeQue)
    (reserved : cache.reserve s before = some after) :
    Touches cache after s before (some (.reserved s)) ∧
      after.slabs s = some { sinfo with count := sinfo.count + 1 } ∧
      after.heldOf s = cache.heldOf s ∧
      after.queues.Nodup ∧
      (s ∈ after.partialQue ↔ sinfo.count + 1 ≠ cache.objsPerSlab) ∧
      (s ∈ after.fullQue ↔ sinfo.count + 1 = cache.objsPerSlab) ∧
      s ∉ after.freeQue := by
  have notBefore (other : Nat) (different : other ≠ s) :
      ∀ call ∈ before, call.slab? ≠ some other := by
    intro call member same
    rw [attaching call member, SlabCall.slab?, Option.some.injEq] at same
    exact different same.symm
  simp only [KmemCache.reserve, found] at reserved
  split at reserved
  case isTrue isFull =>
    cases reserved
    obtain ⟨onceUnlinked, unlinked⟩ := unlink_queues (s := s) once
    refine ⟨⟨rfl, rfl, there, notBefore, a_call_about rfl,
        fun other different => Function.update_of_ne different ..,
        fun _ _ => rfl,
        fun other different => List.mem_erase_of_ne different,
        fun other different => (mem_append_of_ne different).trans
          (List.mem_erase_of_ne different),
        fun other different => List.mem_erase_of_ne different⟩,
      Function.update_self .., rfl, nodup_fullQue onceUnlinked unlinked, ?_, ?_,
      (not_mem_queues.mp unlinked).2.2⟩
    · exact iff_of_false (not_mem_queues.mp unlinked).1 (fun no => no isFull)
    · exact iff_of_true (List.mem_append_right _ (List.mem_singleton_self s))
        isFull
  case isFalse stillPartial =>
    cases reserved
    exact ⟨⟨rfl, rfl, there, notBefore, a_call_about rfl,
        fun other different => Function.update_of_ne different ..,
        fun _ _ => rfl, fun _ _ => Iff.rfl, fun _ _ => Iff.rfl,
        fun _ _ => Iff.rfl⟩,
      Function.update_self .., rfl, once, iff_of_true onPartial stillPartial,
      iff_of_false notFull stillPartial, notFree⟩

/-- An object is reserved of a slab on the partial queue. -/
theorem OthersSound.reserve
    (others : OthersSound cache s)
    (positive : 0 < cache.objsPerSlab)
    (once : cache.queues.Nodup)
    (found : cache.slabs s = some sinfo)
    (reservable : Reservable cache s sinfo)
    {before : Option SlabCall}
    (there : ∀ call ∈ before, call ∈ cache.calls)
    (attaching : ∀ call ∈ before, call = .attaching s)
    (outside : cache.outsideOf s = weight (SlabCall.outsideAt s) before)
    (reserved : cache.reserve s before = some after) :
    CacheSound after := by
  obtain ⟨count, objects, room, onPartial, notFull, notFree⟩ := reservable
  obtain ⟨touches, foundAfter, held, onceAfter, partialAfter, fullAfter,
    freeAfter⟩ := reserve_spec there attaching once found onPartial notFull
      notFree reserved
  have weights :
      weight (SlabCall.reservedAt s) before = 0 ∧
        weight (SlabCall.countedAt s) before = 0 ∧
        weight (SlabCall.putAt s) before = 0 := by
    cases before with
    | none => exact ⟨rfl, rfl, rfl⟩
    | some call =>
        rw [attaching call rfl]
        exact ⟨rfl, rfl, rfl⟩
  have now :
      weight (SlabCall.reservedAt s) (some (.reserved s)) = 1 ∧
        weight (SlabCall.countedAt s) (some (.reserved s)) = 0 ∧
        weight (SlabCall.putAt s) (some (.reserved s)) = 0 ∧
        weight (SlabCall.outsideAt s) (some (.reserved s)) = 0 := by
    simp [weight, SlabCall.reservedAt, SlabCall.countedAt, SlabCall.putAt,
      SlabCall.outsideAt]
  obtain ⟨reservedNow, countedNow, putNow, outsideNow⟩ := touches.counted s
  rw [weights.1, now.1] at reservedNow
  rw [weights.2.1, now.2.1] at countedNow
  rw [weights.2.2, now.2.2.1] at putNow
  rw [← outside, now.2.2.2] at outsideNow
  have size := touches.size
  refine (touches.others others).whole (size ▸ positive) foundAfter ?_ onceAfter
  constructor
  case count => simp only; omega
  case objects => simp only; omega
  case room => simp only; omega
  case outside => omega
  case ending => simp only; omega
  case onPartial => simp only; rw [partialAfter]; omega
  case onFull => rw [fullAfter, size]
  case onFree =>
    exact iff_of_false freeAfter fun empty => Nat.succ_ne_zero _ empty.1

/-- The first section of `slab_kmem_cache_alloc`. -/
theorem CacheSound.alloc
    (sound : CacheSound cache)
    (uncontended : Uncontended cache .alloc)
    (moved : cache.alloc = some after) :
    CacheSound after := by
  simp only [KmemCache.alloc] at moved
  split at moved
  case h_1 s rest queue =>
    cases found : cache.slabs s with
    | none =>
        simp only [KmemCache.reserve, found] at moved
        cases moved
    | some sinfo =>
        obtain ⟨count, objects, room, outside, ending, onPartial, onFull,
          onFree⟩ := sound.slabs found
        have member : s ∈ cache.partialQue := queue ▸ List.mem_cons_self
        obtain ⟨used, unfilled⟩ := onPartial.mp member
        have spare : cache.reservedOf s < sinfo.objects.length :=
          uncontended s (by rw [queue]; rfl) sinfo found
        refine (sound.others s).reserve sound.positive sound.once found
          ⟨count, objects, spare, member, ?_, ?_⟩
          no_call no_call ?_ moved
        · rw [onFull]
          omega
        · rw [onFree]
          omega
        · rw [weight]
          omega
  case h_2 s rest noPartial queue =>
    cases found : cache.slabs s with
    | none =>
        simp only [KmemCache.reserve, found] at moved
        cases moved
    | some sinfo =>
        obtain ⟨count, objects, room, outside, ending, onPartial, onFull,
          onFree⟩ := sound.slabs found
        have member : s ∈ cache.freeQue := queue ▸ List.mem_cons_self
        obtain ⟨empty, alone⟩ := onFree.mp member
        have positive := sound.positive
        have once := sound.once
        simp only [KmemCache.queues, noPartial, queue, List.nil_append] at once
        have here : s ∉ cache.fullQue ∧ s ∉ rest := by
          have unlinked :=
            (List.nodup_cons.mp (List.perm_middle.nodup_iff.mp once)).1
          simpa only [List.mem_append, not_or] using unlinked
        let opened := { cache with freeQue := rest, partialQue := [s] }
        have touches : Touches cache opened s none none :=
          ⟨rfl, rfl, no_call, fun _ _ => no_call, fun _ _ => no_call,
            fun _ _ => rfl, fun _ _ => rfl,
            fun other different => by
              simp only [opened, noPartial, List.mem_singleton, different,
                List.not_mem_nil],
            fun _ _ => Iff.rfl,
            fun other different => by
              simp only [opened, queue, List.mem_cons, different, false_or]⟩
        have onceOpened : opened.queues.Nodup :=
          List.perm_middle.nodup_iff.mp once
        refine (touches.others (sound.others s)).reserve positive onceOpened
          found ⟨count, objects, ?_, List.mem_singleton_self s, here.1, here.2⟩
          no_call no_call ?_ moved
        · change cache.reservedOf s < _
          omega
        · change cache.outsideOf s = 0
          omega
  case h_3 =>
    cases moved
    exact sound.goOn no_call no_call (a_call rfl)

/-- `slab_kmem_cache_grow`. -/
theorem CacheSound.grow
    (sound : CacheSound cache)
    {made : Option Nat}
    (moved : cache.grow made = some after) :
    CacheSound after := by
  simp only [KmemCache.grow] at moved
  split at moved
  case isFalse => cases moved
  case isTrue growing =>
    cases made with
    | none =>
        cases moved
        exact sound.goOn (a_call growing) (a_call rfl) no_call
    | some s =>
        cases gone : cache.slabs s with
        | some sinfo =>
            simp only [gone] at moved
            cases moved
        | none =>
            simp only [gone, Option.some.injEq] at moved
            subst moved
            obtain ⟨reserved, counted, put, outside, held, unlinked⟩ :=
              sound.absent gone
            obtain ⟨notPartial, notFull, notFree⟩ := not_mem_queues.mp unlinked
            let empty : Slab :=
              { count := 0
                objects := (List.range cache.objsPerSlab).reverse }
            let grown := (cache.setSlab s empty).goOn (some .growing)
              (some (.attaching s))
            have touches :
                Touches cache grown s (some .growing) (some (.attaching s)) :=
              ⟨rfl, rfl, a_call growing, fun _ _ => a_call (fun no => nomatch no),
                a_call_about rfl,
                fun other different => Function.update_of_ne different ..,
                fun _ _ => rfl, fun _ _ => Iff.rfl, fun _ _ => Iff.rfl,
                fun _ _ => Iff.rfl⟩
            obtain ⟨r, c, p, o⟩ := touches.counted s
            simp only [weight, SlabCall.reservedAt, SlabCall.countedAt,
              SlabCall.putAt, SlabCall.outsideAt, decide_true, Bool.toNat_true,
              Bool.toNat_false] at r c p o
            have kept : grown.heldOf s = cache.heldOf s := rfl
            have size : grown.objsPerSlab = cache.objsPerSlab := rfl
            have positive := sound.positive
            have length : empty.objects.length = cache.objsPerSlab := by
              rw [List.length_reverse, List.length_range]
            refine (touches.others (sound.others s)).whole positive
              (Function.update_self ..) ?_ sound.once
            constructor
            case count => change 0 = _; omega
            case objects => omega
            case room => omega
            case outside => exact fun _ => rfl
            case ending => omega
            case onPartial =>
              exact iff_of_false notPartial fun used => Nat.lt_irrefl _ used.1
            case onFull =>
              exact iff_of_false notFull fun full => positive.ne full
            case onFree => exact iff_of_false notFree (by omega)

/-- The section of `slab_kmem_cache_alloc` after `slab_kmem_cache_grow`. -/
theorem CacheSound.attach
    (sound : CacheSound cache)
    (moved : cache.attach s = some after) :
    CacheSound after := by
  simp only [KmemCache.attach] at moved
  split at moved
  case isFalse => cases moved
  case isTrue attaching =>
    obtain ⟨attaching, unlinked⟩ := attaching
    cases found : cache.slabs s with
    | none =>
        simp only [KmemCache.reserve, found] at moved
        cases moved
    | some sinfo =>
        obtain ⟨count, objects, room, outside, ending, -, -, -⟩ :=
          sound.slabs found
        have counts : 0 < cache.outsideOf s :=
          List.countP_pos_iff.mpr ⟨_, attaching, by simp [SlabCall.outsideAt]⟩
        have empty := outside counts.ne'
        have alone := ending empty
        have positive := sound.positive
        obtain ⟨notPartial, notFull, notFree⟩ := not_mem_queues.mp unlinked
        let linked :=
          { cache with
            slabCount := cache.slabCount + 1
            partialQue := cache.partialQue ++ [s] }
        have touches : Touches cache linked s none none :=
          ⟨rfl, rfl, no_call, fun _ _ => no_call, fun _ _ => no_call,
            fun _ _ => rfl, fun _ _ => rfl,
            fun other different => mem_append_of_ne different,
            fun _ _ => Iff.rfl, fun _ _ => Iff.rfl⟩
        refine (touches.others (sound.others s)).reserve positive
          (nodup_partialQue sound.once unlinked) found
          ⟨count, objects, ?_,
            List.mem_append_right _ (List.mem_singleton_self s), notFull,
            notFree⟩
          (a_call attaching) (a_call rfl) ?_ moved
        · change cache.reservedOf s < _
          omega
        · change cache.outsideOf s = _
          simp only [weight, SlabCall.outsideAt, decide_true, Bool.toNat_true]
          omega

/-- `alloc_slab_obj`. -/
theorem CacheSound.allocSlabObj
    (sound : CacheSound cache)
    (moved : cache.allocSlabObj s = some after) :
    CacheSound after := by
  simp only [KmemCache.allocSlabObj] at moved
  split at moved
  case isFalse => cases moved
  case isTrue reserved =>
    cases found : cache.slabs s with
    | none =>
        simp only [found] at moved
        cases moved
    | some sinfo =>
        simp only [found] at moved
        cases free : sinfo.objects with
        | nil =>
            simp only [free] at moved
            cases moved
        | cons obj rest =>
            simp only [free, Option.some.injEq] at moved
            have ⟨touches, foundAfter, held⟩ :
                Touches cache after s (some (.reserved s)) none ∧
                  after.slabs s = some { sinfo with objects := rest } ∧
                  after.heldOf s = cache.heldOf s + 1 := by
              subst moved
              refine ⟨⟨rfl, rfl, a_call reserved, a_call_about rfl,
                fun _ _ => no_call,
                fun other different => Function.update_of_ne different ..,
                fun other different => ?_, fun _ _ => Iff.rfl,
                fun _ _ => Iff.rfl, fun _ _ => Iff.rfl⟩,
                Function.update_self .., List.countP_cons_of_pos (by simp)⟩
              exact List.countP_cons_of_neg (by simpa using different.symm)
            have ⟨samePartial, sameFull, sameFree⟩ :
                after.partialQue = cache.partialQue ∧
                  after.fullQue = cache.fullQue ∧
                  after.freeQue = cache.freeQue := by
              subst moved
              exact ⟨rfl, rfl, rfl⟩
            have once : after.queues.Nodup := by
              rw [KmemCache.queues, samePartial, sameFull, sameFree]
              exact sound.once
            obtain ⟨count, objects, room, outside, ending, onPartial, onFull,
              onFree⟩ := sound.slabs found
            rw [free, List.length_cons] at objects room
            obtain ⟨r, c, p, o⟩ := touches.counted s
            simp only [weight, SlabCall.reservedAt, SlabCall.countedAt,
              SlabCall.putAt, SlabCall.outsideAt, decide_true, Bool.toNat_true,
              Bool.toNat_false] at r c p o
            have size := touches.size
            refine (touches.others (sound.others s)).whole
              (size ▸ sound.positive) foundAfter ?_ once
            constructor
            case count => simp only; omega
            case objects => simp only; omega
            case room => simp only; omega
            case outside => simp only; omega
            case ending => simp only; omega
            case onPartial => rw [samePartial, size]; exact onPartial
            case onFull => rw [sameFull, size]; exact onFull
            case onFree =>
              rw [sameFree]
              refine onFree.trans (and_congr_right fun _ => ?_)
              omega

/-! ## Release -/

/-- `free_slab_obj`. -/
theorem CacheSound.freeSlabObj
    (sound : CacheSound cache)
    {obj : Nat}
    (moved : cache.freeSlabObj s obj = some after) :
    CacheSound after := by
  simp only [KmemCache.freeSlabObj] at moved
  split at moved
  case isFalse => cases moved
  case isTrue freed =>
    cases found : cache.slabs s with
    | none =>
        simp only [found] at moved
        cases moved
    | some sinfo =>
        simp only [found, Option.some.injEq] at moved
        have ⟨touches, foundAfter, held⟩ :
            Touches cache after s (some (.freeCounted s obj))
                (some (.freePut s)) ∧
              after.slabs s = some { sinfo with objects := obj :: sinfo.objects } ∧
              after.heldOf s = cache.heldOf s := by
          subst moved
          exact ⟨⟨rfl, rfl, a_call freed, a_call_about rfl, a_call_about rfl,
            fun other different => Function.update_of_ne different ..,
            fun _ _ => rfl, fun _ _ => Iff.rfl, fun _ _ => Iff.rfl,
            fun _ _ => Iff.rfl⟩, Function.update_self .., rfl⟩
        have ⟨samePartial, sameFull, sameFree⟩ :
            after.partialQue = cache.partialQue ∧
              after.fullQue = cache.fullQue ∧
              after.freeQue = cache.freeQue := by
          subst moved
          exact ⟨rfl, rfl, rfl⟩
        have once : after.queues.Nodup := by
          rw [KmemCache.queues, samePartial, sameFull, sameFree]
          exact sound.once
        obtain ⟨count, objects, room, outside, ending, onPartial, onFull,
          onFree⟩ := sound.slabs found
        obtain ⟨r, c, p, o⟩ := touches.counted s
        simp only [weight, SlabCall.reservedAt, SlabCall.countedAt,
          SlabCall.putAt, SlabCall.outsideAt, decide_true, Bool.toNat_true,
          Bool.toNat_false] at r c p o
        have size := touches.size
        refine (touches.others (sound.others s)).whole
          (size ▸ sound.positive) foundAfter ?_ once
        constructor
        case count => simp only; omega
        case objects => simp only [List.length_cons]; omega
        case room => simp only [List.length_cons]; omega
        case outside => simp only; omega
        case ending => simp only; omega
        case onPartial => rw [samePartial, size]; exact onPartial
        case onFull => rw [sameFull, size]; exact onFull
        case onFree =>
          rw [sameFree]
          refine onFree.trans (and_congr_right fun _ => ?_)
          omega

/-- What the first section of `slab_kmem_cache_free` leaves. -/
theorem free_spec
    {obj count : Nat}
    {objects : List Nat}
    (once : cache.queues.Nodup)
    (found : cache.slabs s = some ⟨count + 1, objects⟩)
    (moved : cache.free s obj = some after) :
    Touches cache after s none (some (.freeCounted s obj)) ∧
      after.slabs s = some ⟨count, objects⟩ ∧
      after.heldOf s + 1 = cache.heldOf s ∧
      after.queues.Nodup ∧
      (s ∈ after.partialQue ↔ count ≠ 0) ∧
      s ∉ after.fullQue ∧
      s ∉ after.freeQue := by
  simp only [KmemCache.free, found] at moved
  split at moved
  case isFalse => cases moved
  case isTrue held =>
    obtain ⟨onceUnlinked, unlinked⟩ := unlink_queues (s := s) once
    obtain ⟨notPartial, notFull, notFree⟩ := not_mem_queues.mp unlinked
    have moved_held := (List.perm_cons_erase held).countP_eq
      (fun object => decide (object.1 = s))
    rw [List.countP_cons_of_pos (by simp)] at moved_held
    have heldOthers (other : Nat) (different : other ≠ s) :
        (cache.held.erase (s, obj)).countP (·.1 = other) =
          cache.held.countP (·.1 = other) := by
      have moved := (List.perm_cons_erase held).countP_eq
        (fun object => decide (object.1 = other))
      rw [List.countP_cons_of_neg (by simpa using different.symm)] at moved
      exact moved.symm
    split at moved
    case isTrue empty =>
      cases moved
      exact ⟨⟨rfl, rfl, no_call, fun _ _ => no_call, a_call_about rfl,
          fun other different => Function.update_of_ne different .., heldOthers,
          fun other different => List.mem_erase_of_ne different,
          fun other different => List.mem_erase_of_ne different,
          fun other different => List.mem_erase_of_ne different⟩,
        Function.update_self .., moved_held.symm, onceUnlinked,
        iff_of_false notPartial (fun no => no empty), notFull, notFree⟩
    case isFalse left =>
      cases moved
      exact ⟨⟨rfl, rfl, no_call, fun _ _ => no_call, a_call_about rfl,
          fun other different => Function.update_of_ne different .., heldOthers,
          fun other different => (mem_append_of_ne different).trans
            (List.mem_erase_of_ne different),
          fun other different => List.mem_erase_of_ne different,
          fun other different => List.mem_erase_of_ne different⟩,
        Function.update_self .., moved_held.symm,
        nodup_partialQue onceUnlinked unlinked,
        iff_of_true (List.mem_append_right _ (List.mem_singleton_self s)) left,
        notFull, notFree⟩

/-- The first section of `slab_kmem_cache_free`. -/
theorem CacheSound.free
    (sound : CacheSound cache)
    {obj : Nat}
    (uncontended : Uncontended cache (.free s obj))
    (moved : cache.free s obj = some after) :
    CacheSound after := by
  cases found : cache.slabs s with
  | none =>
      simp only [KmemCache.free, found] at moved
      split at moved <;> cases moved
  | some sinfo =>
      obtain ⟨used, free⟩ := sinfo
      cases used with
      | zero =>
          simp only [KmemCache.free, found] at moved
          split at moved <;> cases moved
      | succ left =>
          obtain ⟨touches, foundAfter, held, once, partialAfter, fullAfter,
            freeAfter⟩ := free_spec sound.once found moved
          obtain ⟨count, objects, room, outside, ending, -, -, -⟩ :=
            sound.slabs found
          have alone := uncontended _ found
          obtain ⟨r, c, p, o⟩ := touches.counted s
          simp only [weight, SlabCall.reservedAt, SlabCall.countedAt,
            SlabCall.putAt, SlabCall.outsideAt, decide_true, Bool.toNat_true,
            Bool.toNat_false] at r c p o
          simp only at count objects room outside ending alone
          have size := touches.size
          refine (touches.others (sound.others s)).whole
            (size ▸ sound.positive) foundAfter ?_ once
          constructor
          case count => simp only; omega
          case objects => simp only; omega
          case room => simp only; omega
          case outside => simp only; omega
          case ending => simp only; omega
          case onPartial => simp only; rw [partialAfter]; omega
          case onFull => exact iff_of_false fullAfter (by simp only; omega)
          case onFree => exact iff_of_false freeAfter (by simp only; omega)

/-- The last section of `slab_kmem_cache_free`. -/
theorem CacheSound.freeEnd
    (sound : CacheSound cache)
    (moved : cache.freeEnd s = some after) :
    CacheSound after := by
  simp only [KmemCache.freeEnd] at moved
  split at moved
  case isFalse => cases moved
  case isTrue put =>
    cases found : cache.slabs s with
    | none =>
        simp only [found] at moved
        cases moved
    | some sinfo =>
        simp only [found] at moved
        obtain ⟨count, objects, room, outside, ending, onPartial, onFull,
          onFree⟩ := sound.slabs found
        have counts : 0 < cache.putOf s :=
          List.countP_pos_iff.mpr ⟨_, put, by simp [SlabCall.putAt]⟩
        have ⟨touches, foundAfter, held, once, samePartial, sameFull,
            freeAfter⟩ :
            Touches cache after s (some (.freePut s)) none ∧
              after.slabs s = some sinfo ∧
              after.heldOf s = cache.heldOf s ∧
              after.queues.Nodup ∧
              after.partialQue = cache.partialQue ∧
              after.fullQue = cache.fullQue ∧
              (s ∈ after.freeQue ↔ sinfo.count = 0) := by
          split at moved
          case isTrue empty =>
            split at moved
            case isTrue => cases moved
            case isFalse unlinked =>
              cases moved
              exact ⟨⟨rfl, rfl, a_call put, a_call_about rfl, fun _ _ => no_call,
                  fun _ _ => rfl, fun _ _ => rfl, fun _ _ => Iff.rfl,
                  fun _ _ => Iff.rfl,
                  fun other different => mem_append_of_ne different⟩,
                found, rfl, nodup_freeQue sound.once unlinked, rfl, rfl,
                iff_of_true
                  (List.mem_append_right _ (List.mem_singleton_self s)) empty⟩
          case isFalse used =>
            cases moved
            exact ⟨⟨rfl, rfl, a_call put, a_call_about rfl, fun _ _ => no_call,
                fun _ _ => rfl, fun _ _ => rfl, fun _ _ => Iff.rfl,
                fun _ _ => Iff.rfl, fun _ _ => Iff.rfl⟩,
              found, rfl, sound.once, rfl, rfl,
              onFree.trans (iff_of_false (fun no => used no.1) used)⟩
        obtain ⟨r, c, p, o⟩ := touches.counted s
        simp only [weight, SlabCall.reservedAt, SlabCall.countedAt,
          SlabCall.putAt, SlabCall.outsideAt, decide_true, Bool.toNat_true,
          Bool.toNat_false] at r c p o
        have size := touches.size
        refine (touches.others (sound.others s)).whole
          (size ▸ sound.positive) foundAfter ?_ once
        constructor
        case count => omega
        case objects => omega
        case room => omega
        case outside => omega
        case ending => omega
        case onPartial => rw [samePartial, size]; exact onPartial
        case onFull => rw [sameFull, size]; exact onFull
        case onFree =>
          refine freeAfter.trans (iff_self_and.mpr fun empty => ?_)
          have alone := ending empty
          omega

/-- The loop of `slab_kmem_cache_reap`. -/
theorem CacheSound.reapNext
    (sound : CacheSound cache)
    {force : Bool}
    (moved : cache.reapNext force = some after) :
    CacheSound after := by
  simp only [KmemCache.reapNext] at moved
  split at moved
  case isFalse => cases moved
  case isTrue reaping =>
    split at moved
    case h_1 =>
      cases moved
      exact sound.goOn (a_call reaping) (a_call rfl) no_call
    case h_2 s rest queue =>
      split at moved
      case isTrue =>
        cases moved
        exact sound.goOn (a_call reaping) (a_call rfl) no_call
      case isFalse =>
        have member : s ∈ cache.freeQue := queue ▸ List.mem_cons_self
        cases found : cache.slabs s with
        | none =>
            exact absurd member
              (not_mem_queues.mp (sound.absent found).unlinked).2.2
        | some sinfo =>
            obtain ⟨count, objects, room, outside, ending, onPartial, onFull,
              onFree⟩ := sound.slabs found
            obtain ⟨empty, alone⟩ := onFree.mp member
            have once := sound.once
            rw [KmemCache.queues, queue] at once
            have free := (List.nodup_append.mp once).2.1
            have ⟨touches, foundAfter, held, onceAfter, samePartial, sameFull,
                freeAfter⟩ :
                Touches cache after s (some (.reaping force))
                    (some (.releasing s force)) ∧
                  after.slabs s = some sinfo ∧
                  after.heldOf s = cache.heldOf s ∧
                  after.queues.Nodup ∧
                  after.partialQue = cache.partialQue ∧
                  after.fullQue = cache.fullQue ∧
                  s ∉ after.freeQue := by
              cases moved
              refine ⟨⟨rfl, rfl, a_call reaping, fun _ _ => a_call nofun,
                  a_call_about rfl, fun _ _ => rfl, fun _ _ => rfl,
                  fun _ _ => Iff.rfl, fun _ _ => Iff.rfl,
                  fun other different => ?_⟩,
                found, rfl,
                once.sublist ((List.sublist_cons_self ..).append_left _),
                rfl, rfl, (List.nodup_cons.mp free).1⟩
              rw [queue, List.mem_cons, or_iff_right different]
            obtain ⟨r, c, p, o⟩ := touches.counted s
            simp only [weight, SlabCall.reservedAt, SlabCall.countedAt,
              SlabCall.putAt, SlabCall.outsideAt, decide_true, Bool.toNat_true,
              Bool.toNat_false] at r c p o
            have size := touches.size
            refine (touches.others (sound.others s)).whole
              (size ▸ sound.positive) foundAfter ?_ onceAfter
            constructor
            case count => omega
            case objects => omega
            case room => omega
            case outside => exact fun _ => empty
            case ending => omega
            case onPartial => rw [samePartial, size]; exact onPartial
            case onFull => rw [sameFull, size]; exact onFull
            case onFree => exact iff_of_false freeAfter (by omega)

/-- `free_slab_info`, in the loop. -/
theorem CacheSound.freeSlabInfo
    (sound : CacheSound cache)
    {force : Bool}
    (moved : cache.freeSlabInfo s force = some after) :
    CacheSound after := by
  simp only [KmemCache.freeSlabInfo] at moved
  split at moved
  case isFalse => cases moved
  case isTrue releasing =>
    have counts : 0 < cache.outsideOf s :=
      List.countP_pos_iff.mpr ⟨_, releasing, by simp [SlabCall.outsideAt]⟩
    cases found : cache.slabs s with
    | none => exact absurd (sound.absent found).outside counts.ne'
    | some sinfo =>
        obtain ⟨count, objects, room, outside, ending, onPartial, onFull,
          onFree⟩ := sound.slabs found
        have empty := outside counts.ne'
        have alone := ending empty
        have positive := sound.positive
        have ⟨touches, gone, held, same⟩ :
            Touches cache after s (some (.releasing s force))
                (some (.reaping force)) ∧
              after.slabs s = none ∧
              after.heldOf s = cache.heldOf s ∧
              after.queues = cache.queues := by
          cases moved
          exact ⟨⟨rfl, rfl, a_call releasing, a_call_about rfl,
              fun _ _ => a_call nofun,
              fun other different => Function.update_of_ne different ..,
              fun _ _ => rfl, fun _ _ => Iff.rfl, fun _ _ => Iff.rfl,
              fun _ _ => Iff.rfl⟩, Function.update_self .., rfl, rfl⟩
        obtain ⟨r, c, p, o⟩ := touches.counted s
        simp only [weight, SlabCall.reservedAt, SlabCall.countedAt,
          SlabCall.putAt, SlabCall.outsideAt, decide_true, Bool.toNat_true,
          Bool.toNat_false] at r c p o
        have unlinked : s ∉ cache.queues := by
          rw [not_mem_queues, onPartial, onFull, onFree]
          omega
        refine (touches.others (sound.others s)).without
          (touches.size ▸ positive) gone ?_ (same ▸ sound.once)
        constructor
        case reserved => omega
        case counted => omega
        case put => omega
        case outside => omega
        case held => omega
        case unlinked => exact same ▸ unlinked

/-! ## Runs -/

/-- One section. -/
theorem CacheSound.step
    (sound : CacheSound cache)
    {action : SlabAction}
    (uncontended : Uncontended cache action)
    (stepped : slabNext cache action = some after) :
    CacheSound after := by
  cases action with
  | alloc => exact sound.alloc uncontended stepped
  | grow => exact sound.grow stepped
  | attach => exact sound.attach stepped
  | allocSlabObj => exact sound.allocSlabObj stepped
  | free => exact sound.free uncontended stepped
  | freeSlabObj => exact sound.freeSlabObj stepped
  | freeEnd => exact sound.freeEnd stepped
  | reap =>
      cases stepped
      exact sound.goOn no_call no_call (a_call rfl)
  | reapNext => exact sound.reapNext stepped
  | freeSlabInfo => exact sound.freeSlabInfo stepped

/-- `slab_kmem_cache_create`. -/
theorem cacheCreate_sound
    {objsPerSlab : Nat}
    (positive : 0 < objsPerSlab)
    (limits : Nat) :
    CacheSound (cacheCreate objsPerSlab limits) :=
  ⟨positive, fun found => (by cases found),
    fun _ => ⟨rfl, rfl, rfl, rfl, rfl, by simp [KmemCache.queues, cacheCreate]⟩,
    List.nodup_nil⟩

/-- What the invariant says to those who call the allocator. -/
theorem CacheSound.safe
    (sound : CacheSound cache) :
    SlabsSafe cache := by
  constructor
  case finds =>
    intro s reserved
    have counts : 0 < cache.reservedOf s :=
      List.countP_pos_iff.mpr ⟨_, reserved, by simp [SlabCall.reservedAt]⟩
    cases found : cache.slabs s with
    | none => exact absurd (sound.absent found).reserved counts.ne'
    | some sinfo => exact ⟨sinfo, rfl, (sound.slabs found).room⟩
  case once => exact sound.once
  case kept =>
    intro s freeing
    cases found : cache.slabs s with
    | none =>
        have ⟨_, counted, put, _, _, _⟩ := sound.absent found
        omega
    | some sinfo =>
        have fits := sound.slabs found
        refine ⟨nofun, ?_⟩
        by_contra outside
        have alone := fits.ending (fits.outside outside)
        omega
  case quiet =>
    intro nobody s sinfo found
    have fits := sound.slabs found
    have counted : cache.countedOf s = 0 := by
      rw [KmemCache.countedOf, nobody, List.countP_nil]
    have put : cache.putOf s = 0 := by
      rw [KmemCache.putOf, nobody, List.countP_nil]
    have outside : cache.outsideOf s = 0 := by
      rw [KmemCache.outsideOf, nobody, List.countP_nil]
    refine ⟨fits.onPartial, fits.onFull, fits.onFree.trans ?_⟩
    rw [counted, put, outside]
    exact and_iff_left rfl

/--
In a run where no allocation counts on an object that a free has not put back
yet, and no free empties a slab while another free of it is in progress, the
slabs are safe in every state.
-/
theorem slabsSafe_of_runs
    {objsPerSlab limits : Nat}
    (positive : 0 < objsPerSlab)
    {actions : List SlabAction}
    (run :
      Run (Guarded Uncontended (StepOf slabNext))
        (cacheCreate objsPerSlab limits) actions cache) :
    SlabsSafe cache := by
  have sound : CacheSound cache :=
    run.invariant (cacheCreate_sound positive limits)
      fun sound stepped => sound.step stepped.1 stepped.2
  exact sound.safe

end Steps

/-! ## Three runs -/

/-- Both objects of slab 0 are allocated. -/
def allocateBoth : List SlabAction :=
  [.alloc, .grow (some 0), .attach 0, .allocSlabObj 0, .alloc, .allocSlabObj 0]

/-- Both are freed, one after the other, and the slab is released. -/
def freeBoth : List SlabAction :=
  allocateBoth ++
    [.free 0 0, .freeSlabObj 0 0, .freeEnd 0, .free 0 1, .freeSlabObj 0 1,
      .freeEnd 0, .reap true, .reapNext true, .freeSlabInfo 0 true,
      .reapNext true]

/-- The slab is gone, and nothing is left of the calls. -/
theorem slabsSafe_of_runs_freeBoth :
    ∃ cache,
      execute (guardNext Uncontended slabNext) (cacheCreate 2 0) freeBoth =
          some cache ∧
        cache.slabs 0 = none ∧
        cache.calls = [] ∧
        SlabsSafe cache := by
  obtain ⟨cache, executed⟩ : ∃ cache,
      execute (guardNext Uncontended slabNext) (cacheCreate 2 0) freeBoth =
        some cache :=
    Option.isSome_iff_exists.mp (by decide +kernel)
  have facts :
      (execute (guardNext Uncontended slabNext) (cacheCreate 2 0) freeBoth).map
          (fun cache => (cache.slabs 0, cache.calls)) =
        some (none, []) := by
    decide +kernel
  rw [executed, Option.map_some, Option.some.injEq] at facts
  simp only [Prod.mk.injEq] at facts
  exact ⟨cache, executed, facts.1, facts.2,
    slabsSafe_of_runs (by decide) (Run.guarded_of_execute executed)⟩

/-- An object is freed and not put back, and its place is reserved. -/
def reserveFreed : List SlabAction :=
  allocateBoth ++ [.free 0 1, .alloc]

/-- Two frees empty the slab, and it is released before the second ends. -/
def releaseFreeing : List SlabAction :=
  allocateBoth ++
    [.free 0 0, .free 0 1, .freeSlabObj 0 0, .freeEnd 0, .reap true,
      .reapNext true, .freeSlabInfo 0 true]

/--
The list of the slab is empty for the reservation, and the slab is gone for the
free that is in progress.
-/
theorem slabs_not_safe :
    (∃ cache,
      execute slabNext (cacheCreate 2 0) reserveFreed = some cache ∧
        (cache.slabs 0).map Slab.objects = some [] ∧
        ¬ SlabsSafe cache) ∧
    (∃ cache,
      execute slabNext (cacheCreate 2 0) releaseFreeing = some cache ∧
        .freeCounted 0 1 ∈ cache.calls ∧
        ¬ SlabsSafe cache) := by
  constructor
  · obtain ⟨cache, executed⟩ : ∃ cache,
        execute slabNext (cacheCreate 2 0) reserveFreed = some cache :=
      Option.isSome_iff_exists.mp (by decide +kernel)
    have facts :
        (execute slabNext (cacheCreate 2 0) reserveFreed).map
            (fun cache => (cache.calls, cache.slabs 0)) =
          some ([.reserved 0, .freeCounted 0 1], some ⟨2, []⟩) := by
      decide +kernel
    rw [executed, Option.map_some, Option.some.injEq] at facts
    simp only [Prod.mk.injEq] at facts
    obtain ⟨calls, found⟩ := facts
    refine ⟨cache, executed, by rw [found]; rfl, fun safe => ?_⟩
    obtain ⟨sinfo, there, room⟩ := safe.finds 0 (calls ▸ List.mem_cons_self)
    rw [found, Option.some.injEq] at there
    rw [← there, KmemCache.reservedOf, calls] at room
    exact absurd room (by decide)
  · obtain ⟨cache, executed⟩ : ∃ cache,
        execute slabNext (cacheCreate 2 0) releaseFreeing = some cache :=
      Option.isSome_iff_exists.mp (by decide +kernel)
    have facts :
        (execute slabNext (cacheCreate 2 0) releaseFreeing).map
            (fun cache => (cache.calls, cache.slabs 0)) =
          some ([.reaping true, .freeCounted 0 1], none) := by
      decide +kernel
    rw [executed, Option.map_some, Option.some.injEq] at facts
    simp only [Prod.mk.injEq] at facts
    obtain ⟨calls, gone⟩ := facts
    refine ⟨cache, executed, by simp [calls], fun safe => ?_⟩
    refine (safe.kept 0 (Nat.lt_add_right _ ?_)).1 gone
    rw [KmemCache.countedOf, calls]
    decide

end RiscvWorkshop.Kmem
