import Mathlib
import RiscvWorkshop.SlabSteps

namespace RiscvWorkshop.PageSlab

open Pfdb
open Kmem

/-!
# What the memory of the allocator says

The slabs, the queues and the objects given out are read off the memory here,
without the view of the slabs that the proofs go by.
-/

/-! ## The books of the allocator -/

/-- The objects of a slab that are given out. -/
def Heap.givenOf (heap : Heap) (sinfo : Slab) : List Given :=
  heap.live.filter fun x => x.bufctl ∈ sinfo.records

/-- The queue for a slab with this many objects given out. -/
def queueOf (objsPerSlab count : Nat) : SlabQueue :=
  if count = objsPerSlab then
    .onFull
  else if count = 0 then
    .onFree
  else
    .onPartial

/-- The slab of a page cluster, with its records, its free objects and its queue. -/
structure SlabRight
    (m : Memory)
    (pages : SlabPages)
    (sinfo : Slab) : Prop where
  header : m.heap.slabs pages.slabp = some sinfo
  page : sinfo.page = pages.kaddr
  order : pages.order = (m.cache sinfo.cache).order
  sized : sinfo.records.length = (m.cache sinfo.cache).objsPerSlab
  once : sinfo.records.Nodup
  free : ∃ frees, Linked 0 m.heap.word sinfo.objects frees ∧
    (frees ++ (m.heap.givenOf sinfo).map Given.bufctl).Perm sinfo.records
  count : sinfo.count = (m.heap.givenOf sinfo).length
  lined : pages.slabp ∈ (m.state sinfo.cache).que
    (queueOf (m.cache sinfo.cache).objsPerSlab sinfo.count)

namespace Memory

/-- The page clusters of the slabs of a cache. -/
def clustersOf (m : Memory) (c : Nat) : List SlabPages :=
  m.heap.pages.filter fun pages =>
    (m.heap.slabs pages.slabp).map Slab.cache = some c

/-- The headers of the slabs of a cache. -/
def headersOf (m : Memory) (c : Nat) : List Nat :=
  (m.clustersOf c).map SlabPages.slabp

/-- The objects that the slab of a page cluster is made of. -/
def madeOf (m : Memory) (pages : SlabPages) : List Nat :=
  match m.heap.slabs pages.slabp with
  | none => []
  | some sinfo =>
      if (m.cache sinfo.cache).onSlab then
        []
      else
        pages.slabp :: sinfo.records

end Memory

/--
The books are right: every page cluster has its slab, every slab is on one queue
and is counted, every object given out leads to its record, and it is either of
a caller or part of a slab.
-/
structure SlabsRight (m : Memory) : Prop where
  slabs : ∀ pages ∈ m.heap.pages, ∃ sinfo, SlabRight m pages sinfo
  apart : m.heap.pages.Pairwise SlabPages.Apart
  headers : (m.heap.pages.map SlabPages.slabp).Nodup
  queues : ∀ c, (m.state c).queues.Perm (m.headersOf c)
  counted : ∀ c, (m.state c).slabCount = (m.headersOf c).length
  recovered : ∀ x ∈ m.heap.live, ∃ c, m.cacheOf x.obj = some c ∧
    m.heap.bufctlOf (m.cache c) x.obj = x.bufctl
  objects : (m.heap.live.map Given.obj).Nodup
  records : (m.heap.live.map Given.bufctl).Nodup
  owners : (m.held ++ m.heap.pages.flatMap m.madeOf).Perm
    (m.heap.live.map Given.obj)

/-! ## The bytes of objects -/

namespace Memory

/-- The bytes of an object that its owner may use. -/
def Content (m : Memory) (obj a : Nat) : Prop :=
  ∃ c, m.cacheOf obj = some c ∧ obj ≤ a ∧ a < obj + (m.cache c).payloadSize

/-- The size of a record. -/
def recordSize (m : Memory) (sinfo : Slab) : Nat :=
  if (m.cache sinfo.cache).onSlab then sBufctlSize else bufctlSize

/--
The bytes that the allocator keeps for the slab of a page cluster: its header,
its records, and the pointers in front of the objects given out.
-/
inductive Keeps
    (m : Memory)
    (pages : SlabPages)
    (sinfo : Slab)
    (a : Nat) : Prop where
  | header
      (above : pages.slabp ≤ a)
      (below : a < pages.slabp + slabSize)
  | record
      (bctl : Nat)
      (member : bctl ∈ sinfo.records)
      (above : bctl ≤ a)
      (below : a < bctl + m.recordSize sinfo)
  | pointer
      (x : Given)
      (given : x ∈ m.heap.givenOf sinfo)
      (pointed : (m.cache sinfo.cache).pointed)
      (above : x.obj - pointerSize ≤ a)
      (below : a < x.obj)

end Memory

/-- The place of an object of a caller. -/
structure ObjectPlaced
    (m : Memory)
    (pages : SlabPages)
    (sinfo : Slab)
    (obj : Nat) : Prop where
  slab : m.heap.slabs pages.slabp = some sinfo
  isCache : m.cacheOf obj = some sinfo.cache
  words : pointerSize ∣ obj
  aligned : (m.cache sinfo.cache).align > 0 → (m.cache sinfo.cache).align ∣ obj
  start : pages.kaddr ≤ obj
  stop : obj + (m.cache sinfo.cache).payloadSize ≤
    pages.kaddr + pageSize <<< pages.order

/--
The objects of callers are aligned and in the pages of a slab, and share no byte
with each other or with what the allocator keeps.
-/
structure ObjectsRight (m : Memory) : Prop where
  placed : ∀ obj ∈ m.held, ∃ pages ∈ m.heap.pages, ∃ sinfo,
    ObjectPlaced m pages sinfo obj
  apart : ∀ obj ∈ m.held, ∀ other ∈ m.held, ∀ a,
    m.Content obj a → m.Content other a → obj = other
  unkept : ∀ obj ∈ m.held, ∀ a, m.Content obj a →
    ∀ pages ∈ m.heap.pages, ∀ sinfo,
      m.heap.slabs pages.slabp = some sinfo → ¬ m.Keeps pages sinfo a

section Right

variable {m : Memory}
variable {v w : SlabView}
variable {views : List SlabView}
variable {loose : List Nat}
variable {extra : List SlabPages}
variable {c i j a obj : Nat}

/-- No two objects have one record. -/
theorem Placed.recordAt_unique
    {cache : Nat → KmemCache}
    {heap : Heap}
    (placed : Placed cache heap views loose extra)
    (prepared : Prepared cache)
    (member : v ∈ views)
    (other : w ∈ views)
    (less : i < v.records.length)
    (bound : j < w.records.length)
    (same : v.recordAt i = w.recordAt j) :
    v = w ∧ i = j :=
  placed.owns_unique prepared member other less bound
    (placed.owns_of_uses prepared member less (.inl rfl))
    (placed.owns_of_uses prepared other bound (.inl same))

/-- The records of a slab are those of its objects. -/
theorem SlabView.mem_records
    {bctl : Nat} :
    bctl ∈ v.records ↔ ∃ i < v.records.length, v.recordAt i = bctl := by
  constructor
  · intro member
    obtain ⟨i, less, rfl⟩ := List.getElem_of_mem member
    exact ⟨i, less, List.getD_eq_getElem _ _ less⟩
  · rintro ⟨i, less, rfl⟩
    exact SlabView.recordAt_mem less

/-- The objects given out of a slab are those that are not free. -/
theorem Placed.mem_givenOf
    {cache : Nat → KmemCache}
    {heap : Heap}
    (placed : Placed cache heap views loose extra)
    (prepared : Prepared cache)
    (member : v ∈ views)
    {x : Given} :
    x ∈ heap.givenOf v.slab ↔ ∃ i, v.Taken i ∧ x = v.given cache i := by
  rw [Heap.givenOf, List.mem_filter, placed.live, decide_eq_true_iff]
  constructor
  · rintro ⟨⟨w, other, i, taken, rfl⟩, isRecord⟩
    obtain ⟨j, less, same⟩ := SlabView.mem_records.mp isRecord
    obtain ⟨rfl, rfl⟩ :=
      placed.recordAt_unique prepared member other less taken.1 same
    exact ⟨j, taken, rfl⟩
  · rintro ⟨i, taken, rfl⟩
    exact ⟨⟨v, member, i, taken, rfl⟩, SlabView.recordAt_mem taken.1⟩

/-- No two objects given out have one record. -/
theorem Placed.live_records
    {cache : Nat → KmemCache}
    {heap : Heap}
    (placed : Placed cache heap views loose extra)
    (prepared : Prepared cache) :
    (heap.live.map Given.bufctl).Nodup := by
  refine List.Nodup.map_on (fun x isLive y isLive' same => ?_)
    (List.Nodup.of_map _ placed.once)
  obtain ⟨v, member, i, taken, rfl⟩ := (placed.live x).mp isLive
  obtain ⟨w, other, j, taken', rfl⟩ := (placed.live y).mp isLive'
  obtain ⟨rfl, rfl⟩ :=
    placed.recordAt_unique prepared member other taken.1 taken'.1 same
  rfl

/-- The free objects of a slab are the others. -/
theorem Placed.frees_givenOf
    {cache : Nat → KmemCache}
    {heap : Heap}
    (placed : Placed cache heap views loose extra)
    (prepared : Prepared cache)
    (member : v ∈ views) :
    v.records.Nodup ∧
      (v.frees.map v.recordAt ++
        (heap.givenOf v.slab).map Given.bufctl).Perm v.records := by
  have fits := placed.fits v member
  have same : ∀ {i j}, i < v.records.length → j < v.records.length →
      v.recordAt i = v.recordAt j → i = j := fun less bound same =>
    (placed.recordAt_unique prepared member member less bound same).2
  have once : v.records.Nodup := by
    refine List.nodup_iff_injective_get.mpr fun i j alike => Fin.ext ?_
    refine same i.isLt j.isLt ?_
    rw [SlabView.recordAt, SlabView.recordAt, List.getD_eq_getElem _ _ i.isLt,
      List.getD_eq_getElem _ _ j.isLt]
    exact alike
  refine ⟨once, (List.perm_ext_iff_of_nodup ?_ once).mpr fun bctl => ?_⟩
  · refine List.nodup_append.mpr ⟨?_, ?_, ?_⟩
    · exact List.Nodup.map_on (fun i isFree j isFree' =>
        same (fits.bound i isFree) (fits.bound j isFree')) fits.once
    · exact (placed.live_records prepared).sublist
        (List.filter_sublist.map _)
    · intro bctl ofFree other ofGiven alike
      obtain ⟨i, isFree, rfl⟩ := List.mem_map.mp ofFree
      obtain ⟨x, isGiven, rfl⟩ := List.mem_map.mp ofGiven
      obtain ⟨j, taken, rfl⟩ := (placed.mem_givenOf prepared member).mp isGiven
      obtain rfl := same (fits.bound i isFree) taken.1 alike
      exact taken.2 isFree
  · rw [List.mem_append, List.mem_map, List.mem_map]
    constructor
    · rintro (⟨i, isFree, rfl⟩ | ⟨x, isGiven, rfl⟩)
      · exact SlabView.recordAt_mem (fits.bound i isFree)
      · obtain ⟨j, taken, rfl⟩ :=
          (placed.mem_givenOf prepared member).mp isGiven
        exact SlabView.recordAt_mem taken.1
    · intro isRecord
      obtain ⟨i, less, rfl⟩ := SlabView.mem_records.mp isRecord
      by_cases isFree : i ∈ v.frees
      · exact .inl ⟨i, isFree, rfl⟩
      · refine .inr ⟨v.given cache i, ?_, rfl⟩
        exact (placed.mem_givenOf prepared member).mpr
          ⟨i, ⟨less, isFree⟩, rfl⟩

/-- The queue of a slab is found by counting. -/
theorem ViewFits.queue_eq
    {cache : Nat → KmemCache}
    {heap : Heap}
    (fits : ViewFits cache heap v)
    (laid : Laid (cache v.cache)) :
    v.queue = queueOf (cache v.cache).objsPerSlab v.count := by
  have le := fits.frees_le
  have objs := laid.objs
  rw [← fits.sized] at objs ⊢
  rw [SlabView.queue, queueOf, SlabView.count]
  by_cases none : v.frees = []
  · rw [if_pos none, none, List.length_nil, Nat.sub_zero, if_pos rfl]
  · have some := List.length_pos_of_ne_nil none
    have less : ¬ v.records.length - v.frees.length = v.records.length := by
      omega
    rw [if_neg none, if_neg less]
    refine if_congr ?_ rfl rfl
    omega

/-- A slab is as its view says. -/
theorem Sound.slabRight
    (sound : Sound m [] views loose extra)
    (member : v ∈ views) :
    SlabRight m (v.pages m.cache) v.slab := by
  obtain ⟨prepared, placed, queued⟩ := sound
  rw [List.nil_append] at placed
  have fits := placed.fits v member
  obtain ⟨once, same⟩ := placed.frees_givenOf prepared member
  have lengths := same.length_eq
  rw [List.length_append, List.length_map, List.length_map] at lengths
  have count : v.count = (m.heap.givenOf v.slab).length := by
    rw [SlabView.count]
    omega
  constructor
  case header => exact fits.header
  case page => rfl
  case order => rfl
  case sized => exact fits.sized
  case once => exact once
  case free => exact ⟨_, fits.linked, same⟩
  case count => exact count
  case lined =>
    exact (queued v.cache).mem_que.mpr
      ⟨v, member, rfl, fits.queue_eq (prepared.laid v.cache), rfl⟩

/-- The page clusters of a cache are those of its slabs. -/
theorem Sound.clustersOf_perm
    (sound : Sound m [] views loose [])
    (c : Nat) :
    (m.clustersOf c).Perm
      ((views.filter fun v => v.cache = c).map (SlabView.pages m.cache)) := by
  have placed := sound.placed
  have pages := placed.pages
  rw [List.nil_append, List.nil_append] at pages
  refine (pages.filter _).trans (.of_eq ?_)
  rw [List.filter_map]
  refine congrArg (List.map (SlabView.pages m.cache)) (List.filter_congr ?_)
  intro v member
  have header := (placed.fits v member).header
  rw [Function.comp_apply, SlabView.pages, header]
  simp [SlabView.slab]

/-- The headers of a cache are those of its slabs. -/
theorem Sound.headersOf_perm
    (sound : Sound m [] views loose [])
    (c : Nat) :
    (m.headersOf c).Perm
      ((views.filter fun v => v.cache = c).map SlabView.header) := by
  refine ((sound.clustersOf_perm c).map _).trans (.of_eq ?_)
  rw [List.map_map]
  rfl

/-- The three queues have the slabs of a cache. -/
theorem Queued.queues_perm
    {cache : KmemCache}
    {state : CacheState}
    (queued : Queued cache c state views) :
    state.queues.Perm
      ((views.filter fun v => v.cache = c).map SlabView.header) := by
  have parts : ∀ others : List SlabView,
      (others.filter (SlabView.isOn c .onPartial) ++
        others.filter (SlabView.isOn c .onFull) ++
        others.filter (SlabView.isOn c .onFree)).Perm
      (others.filter fun v => v.cache = c) := by
    intro others
    induction others with
    | nil => exact .refl _
    | cons v others inductionHypothesis =>
        by_cases isCache : v.cache = c
        · have first : (v :: others).filter (fun w => w.cache = c) =
              v :: others.filter fun w => w.cache = c :=
            List.filter_cons_of_pos (decide_eq_true isCache)
          rw [first]
          refine .trans ?_ (inductionHypothesis.cons v)
          cases isOn : v.queue with
          | onPartial => simp [SlabView.isOn, isCache, isOn]
          | onFull => simp [SlabView.isOn, isCache, isOn, List.perm_middle]
          | onFree =>
              simp only [SlabView.isOn, isCache, isOn, true_and,
                decide_true, reduceCtorEq, decide_false, Bool.false_eq_true,
                not_false_eq_true, List.filter_cons_of_pos,
                List.filter_cons_of_neg]
              exact List.perm_middle
        · simpa [SlabView.isOn, isCache] using inductionHypothesis
  refine .trans ?_ ((parts views).map _)
  rw [List.map_append, List.map_append]
  exact ((queued.lined .onPartial).append (queued.lined .onFull)).append
    (queued.lined .onFree)

/-- Sound slabs have their books right. -/
theorem Sound.slabsRight
    (sound : Sound m [] views m.held []) :
    SlabsRight m := by
  obtain ⟨prepared, placed, queued⟩ := id sound
  rw [List.nil_append] at placed
  have pages := placed.pages
  rw [List.nil_append] at pages
  constructor
  case slabs =>
    intro cluster isPages
    obtain ⟨v, member, rfl⟩ := List.mem_map.mp (pages.mem_iff.mp isPages)
    exact ⟨v.slab, sound.slabRight member⟩
  case apart => exact placed.apart
  case headers =>
    refine (pages.map _).nodup_iff.mpr ?_
    rw [List.map_map]
    exact placed.headers
  case queues =>
    exact fun c => (queued c).queues_perm.trans (sound.headersOf_perm c).symm
  case counted =>
    intro c
    rw [(queued c).counted, (sound.headersOf_perm c).length_eq, List.length_map,
      List.countP_eq_length_filter]
  case recovered =>
    intro x isLive
    obtain ⟨v, member, i, taken, rfl⟩ := (placed.live x).mp isLive
    exact ⟨v.cache, placed.cacheOf_eq prepared ⟨v, member, rfl, i, taken, rfl⟩,
      placed.bufctlOf_eq member taken⟩
  case objects => exact placed.once
  case records => exact placed.live_records prepared
  case owners =>
    have same : (m.heap.pages.flatMap m.madeOf).Perm
        (views.flatMap (SlabView.owned m.cache)) := by
      refine (pages.flatMap_right _).trans (.of_eq ?_)
      rw [List.flatMap_map]
      refine List.flatMap_congr fun v member => ?_
      rw [Memory.madeOf, SlabView.pages, (placed.fits v member).header]
      rfl
    refine ((same.append_left _).trans ?_)
    exact (List.perm_ext_iff_of_nodup placed.owners placed.once).mpr
      fun obj => (placed.covers obj).symm

/-- The bytes of an object that a caller has are in its slot. -/
theorem Placed.slot_of_content
    (placed : Placed m.cache m.heap views loose extra)
    (prepared : Prepared m.cache)
    (isLoose : obj ∈ loose)
    (content : m.Content obj a) :
    ∃ v ∈ views, ∃ i, v.Taken i ∧ v.objAt m.cache i = obj ∧
      v.Payload m.cache i a ∧ v.Slot m.cache i a := by
  obtain ⟨c, isCache, above, below⟩ := content
  obtain ⟨d, given⟩ := placed.objOf_of_loose isLoose
  obtain rfl := Option.some.inj
    ((placed.cacheOf_eq prepared given).symm.trans isCache)
  obtain ⟨v, member, rfl, i, taken, rfl⟩ := given
  have payload : v.Payload m.cache i a := ⟨above, below⟩
  exact ⟨v, member, i, taken, rfl, payload,
    placed.slot_of_payload member taken payload⟩

/-- An object of a slab itself shares no byte with those of callers. -/
theorem Placed.owned_not_content
    (placed : Placed m.cache m.heap views loose extra)
    (prepared : Prepared m.cache)
    {owner : Nat}
    (member : w ∈ views)
    (owns : owner ∈ w.owned m.cache)
    (given : ObjOf m.cache views c owner)
    (above : owner ≤ a)
    (below : a < owner + (m.cache c).payloadSize)
    (isLoose : obj ∈ loose) :
    ¬ m.Content obj a := by
  intro content
  obtain ⟨v, here, i, taken, rfl, _, slot⟩ :=
    placed.slot_of_content prepared isLoose content
  obtain ⟨u, there, rfl, j, taken', rfl⟩ := given
  have slot' := placed.slot_of_payload there taken' ⟨above, below⟩
  obtain ⟨rfl, rfl⟩ := placed.slot_unique prepared here there taken.1 taken'.1
    slot slot'
  exact (placed.owner_unique member owns).1 isLoose

/-- A byte in a slot that is in front of the object is of no caller. -/
theorem Placed.front_not_content
    (placed : Placed m.cache m.heap views loose extra)
    (prepared : Prepared m.cache)
    (member : w ∈ views)
    (less : j < w.records.length)
    (slot : w.Slot m.cache j a)
    (below : a < w.objAt m.cache j)
    (isLoose : obj ∈ loose) :
    ¬ m.Content obj a := by
  intro content
  obtain ⟨v, here, i, taken, _, payload, slot'⟩ :=
    placed.slot_of_content prepared isLoose content
  obtain ⟨rfl, rfl⟩ := placed.slot_unique prepared here member taken.1 less
    slot' slot
  exact absurd payload.1 (Nat.not_le.mpr below)

/-- The bytes that the allocator keeps for a slab are of no caller. -/
theorem Placed.keeps_not_content
    (placed : Placed m.cache m.heap views loose extra)
    (prepared : Prepared m.cache)
    (member : w ∈ views)
    (keeps : m.Keeps (w.pages m.cache) w.slab a)
    (isLoose : obj ∈ loose) :
    ¬ m.Content obj a := by
  have fits := placed.fits w member
  have laid := prepared.laid w.cache
  cases onSlab : (m.cache w.cache).onSlab with
  | true =>
      obtain ⟨header, room, fitted⟩ := fits.onSlab onSlab
      cases keeps with
      | header above below =>
          intro content
          obtain ⟨v, here, i, taken, _, _, slot⟩ :=
            placed.slot_of_content prepared isLoose content
          obtain ⟨holds, inFront⟩ :=
            placed.slot_inside prepared here taken.1 slot
          have bytes : pageSize <<< (m.cache w.cache).order = pageSize := by
            rw [(laid.onSlab onSlab).onePage, Nat.shiftLeft_zero]
          have sizes : slabSize ≤ pageSize := by decide
          have too : (w.pages m.cache).Holds a := by
            dsimp only [SlabView.pages] at above below
            rw [SlabPages.Holds, SlabView.pages, bytes]
            dsimp only
            omega
          obtain rfl := placed.view_unique here member holds too
          exact absurd (inFront onSlab) (Nat.not_lt.mpr above)
      | record bctl isRecord above below =>
          obtain ⟨j, less, rfl⟩ := SlabView.mem_records.mp isRecord
          have size : m.recordSize w.slab = pointerSize := if_pos onSlab
          have behind := ((m.cache w.cache).objAt_ge w.page
            ((m.cache w.cache).coloff w.colorIndex) j).1
          have words := (laid.onSlab onSlab).rooms
          rw [room j less, SlabView.room] at above below
          rw [size] at below
          refine placed.front_not_content prepared member less ?_ ?_ isLoose
          · rw [SlabView.Slot, KmemCache.Slot, if_pos onSlab]
            omega
          · rw [SlabView.objAt]
            omega
      | pointer x given pointed above below =>
          obtain ⟨j, taken, rfl⟩ :=
            (placed.mem_givenOf prepared member).mp given
          have behind := ((m.cache w.cache).objAt_ge w.page
            ((m.cache w.cache).coloff w.colorIndex) j).1
          have most := fitted j taken onSlab
          refine placed.front_not_content prepared member taken.1 ?_ below isLoose
          dsimp only [SlabView.given, SlabView.objAt] at above below
          rw [SlabView.Slot, KmemCache.Slot, if_pos onSlab]
          omega
  | false =>
      have kept := placed.kept w member onSlab
      have owned := SlabView.owned_offSlab onSlab
      cases keeps with
      | header above below =>
          refine placed.owned_not_content prepared member
            (owned ▸ List.mem_cons_self) kept.1 above ?_ isLoose
          exact below.trans_le
            (Nat.add_le_add_left prepared.slabInfo.payload w.header)
      | record bctl isRecord above below =>
          have size : m.recordSize w.slab = bufctlSize :=
            if_neg (fun isOn => Bool.false_ne_true (onSlab.symm.trans isOn))
          refine placed.owned_not_content prepared member
            (owned ▸ List.mem_cons_of_mem _ isRecord) (kept.2 bctl isRecord)
            above ?_ isLoose
          rw [size] at below
          exact below.trans_le
            (Nat.add_le_add_left prepared.bufctl.payload bctl)
      | pointer x given pointed above below =>
          obtain ⟨j, taken, rfl⟩ :=
            (placed.mem_givenOf prepared member).mp given
          refine placed.front_not_content prepared member taken.1 ?_ below isLoose
          dsimp only [SlabView.given, SlabView.objAt] at above below
          rw [SlabView.Slot, KmemCache.Slot, if_neg (by simp [onSlab])]
          omega

/-- Sound slabs have the objects of callers in their places. -/
theorem Sound.objectsRight
    (sound : Sound m [] views m.held []) :
    ObjectsRight m := by
  obtain ⟨prepared, placed, _⟩ := id sound
  rw [List.nil_append] at placed
  constructor
  case placed =>
    intro obj isHeld
    obtain ⟨c, given⟩ := placed.objOf_of_loose isHeld
    have isCache := placed.cacheOf_eq prepared given
    obtain ⟨v, member, rfl, i, taken, rfl⟩ := given
    have fits := placed.fits v member
    have holds := placed.holds_objAt prepared member taken.1
    refine ⟨v.pages m.cache, placed.pages_mem member, v.slab, fits.header,
      isCache, fits.words_objAt (prepared.laid v.cache) i, fun aligned => ?_,
      holds.1, ?_⟩
    · change (m.cache v.cache).align > 0 at aligned
      change (m.cache v.cache).align ∣ _
      rw [SlabView.objAt, KmemCache.objAt, KmemCache.alignObj, if_pos aligned]
      exact dvd_roundupAlign
    · -- the last byte is in the pages, or the object itself if it has none
      by_cases some : 0 < (m.cache v.cache).payloadSize
      · have last : v.Payload m.cache i
            (v.objAt m.cache i + ((m.cache v.cache).payloadSize - 1)) := by
          rw [SlabView.Payload, KmemCache.Payload, SlabView.objAt]
          omega
        have inside := (placed.slot_inside prepared member taken.1
          (placed.slot_of_payload member taken last)).1.2
        change v.objAt m.cache i + (m.cache v.cache).payloadSize ≤ _
        omega
      · have below := holds.2
        change v.objAt m.cache i + (m.cache v.cache).payloadSize ≤ _
        omega
  case apart =>
    intro obj isHeld other isHeld' a content content'
    obtain ⟨v, here, i, taken, rfl, _, slot⟩ :=
      placed.slot_of_content prepared isHeld content
    obtain ⟨w, there, j, taken', rfl, _, slot'⟩ :=
      placed.slot_of_content prepared isHeld' content'
    obtain ⟨rfl, rfl⟩ := placed.slot_unique prepared here there taken.1
      taken'.1 slot slot'
    rfl
  case unkept =>
    intro obj isHeld a content cluster isPages sinfo header keeps
    have pages := placed.pages
    rw [List.nil_append] at pages
    obtain ⟨w, member, rfl⟩ := List.mem_map.mp (pages.mem_iff.mp isPages)
    obtain rfl := Option.some.inj
      ((placed.fits w member).header.symm.trans header)
    exact placed.keeps_not_content prepared member keeps isHeld content

end Right

end RiscvWorkshop.PageSlab
