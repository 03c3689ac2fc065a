import Mathlib
import RiscvWorkshop.SlabAlloc

namespace RiscvWorkshop.PageSlab

open Pfdb
open Kmem

/-!
# Slabs with their records elsewhere

The header and the records of such a slab are objects of other caches, which are
allocated one after another.  When one of them cannot be had, what was allocated
before is given back.
-/

variable {m after : Memory}
variable {views : List SlabView}
variable {loose : List Nat}
variable {extra : List SlabPages}
variable {c obj : Nat}
variable {clear : Bool}

/-- An object is not at the null address. -/
theorem Placed.objOf_ne_zero
    {cache : Nat → KmemCache}
    {heap : Heap}
    (placed : Placed cache heap views loose extra)
    (prepared : Prepared cache)
    (given : ObjOf cache views c obj) :
    obj ≠ 0 := by
  obtain ⟨v, member, rfl, i, taken, rfl⟩ := given
  have holds := placed.holds_objAt prepared member taken.1
  exact ((placed.fits v member).positive.trans_le holds.1).ne'

/-- `slab_kmem_cache_alloc` for a cache with its records among the objects. -/
theorem Sound.slabKmemCacheAlloc_onSlab
    {depth : Nat}
    {result : Except Errno Nat}
    (sound : Sound m [] views loose extra)
    (onSlab : (m.cache c).onSlab = true)
    (allocated :
      Memory.slabKmemCacheAlloc clear (depth + 1) m c = some (result, after)) :
    Allocated m after c views loose extra result := by
  refine sound.allocWith_spec (fun grown => ?_) allocated
  obtain ⟨confined, done⟩ := sound.grow_onSlab onSlab grown
  exact ⟨views, confined.mono (fun _ => False.elim) (fun _ => id) fun _ => id,
    done⟩

/-- What `kmalloc` leaves: an object of a cache for records, or nothing. -/
def Kmallocs (kmalloc : Memory → Nat → Option (Nat × Memory)) : Prop :=
  ∀ {m after : Memory} {views : List SlabView} {loose : List Nat}
    {extra : List SlabPages} {size obj c : Nat},
    kmallocCache size = some c → OfRecords c → Sound m [] views loose extra →
    kmalloc m size = some (obj, after) →
    ∃ views', Confined (· = c) m after views views' loose extra ∧
      (obj = 0 ∧ Sound after [] views' loose extra ∨
        obj ≠ 0 ∧ ObjOf after.cache views' c obj ∧
          Sound after [] views' (obj :: loose) extra)

/-- `kmalloc` of a record or a header. -/
theorem kmallocs_kmallocWith
    (clear : Bool)
    (depth : Nat) :
    Kmallocs (Memory.kmallocWith
      (Memory.slabKmemCacheAlloc clear (depth + 1))) := by
  intro m after views loose extra size obj c found ofRecords sound got
  have onSlab := sound.prepared.onSlab_of_records ofRecords
  have notReleasing : ∀ d, ¬ Releasing m.cache c d := fun d releasing =>
    Bool.false_ne_true (releasing.2.symm.trans onSlab)
  rw [Memory.kmallocWith, found] at got
  dsimp only at got
  split at got
  · cases got
  · next e failed =>
    obtain ⟨rfl, rfl⟩ := Prod.mk.inj (Option.some.inj got)
    obtain ⟨views', ⟨_, done, confined⟩ | ⟨_, found, _⟩⟩ :=
      sound.slabKmemCacheAlloc_onSlab onSlab failed
    · refine ⟨views', confined.mono (fun d releasing => ?_) (fun _ => id)
        fun _ => id, .inl ⟨rfl, done⟩⟩
      exact absurd releasing (notReleasing d)
    · cases found
  · next made =>
    obtain ⟨rfl, rfl⟩ := Prod.mk.inj (Option.some.inj got)
    obtain ⟨views', ⟨none, _⟩ | ⟨_, found, given, done, confined⟩⟩ :=
      sound.slabKmemCacheAlloc_onSlab onSlab made
    · cases none
    · obtain rfl := Except.ok.inj found
      refine ⟨views', confined.mono (fun d uses => ?_) (fun _ => id)
        fun _ => id, .inr ⟨?_, given, done⟩⟩
      · exact uses.resolve_right (notReleasing d)
      · exact done.placed.objOf_ne_zero done.prepared given

/-! ## The records of a slab that is being made -/

/-- A slab being made of an object for its header and of others for its records. -/
structure Building
    (m : Memory)
    (views : List SlabView)
    (v : SlabView) : Prop where
  positive : 0 < v.page
  aligned : (m.cache v.cache).slabBytes ∣ v.page
  color : v.colorIndex < (m.cache v.cache).colors
  short : v.records.length ≤ (m.cache v.cache).objsPerSlab
  making : Making m.heap v
  info : ObjOf m.cache views slabInfoCache v.header
  given : ∀ bctl ∈ v.records, ObjOf m.cache views bufctlCache bctl
  pointed : ∀ i < v.records.length,
    m.heap.word (v.room m.cache i) = v.recordAt i
  rooms : ∀ i < v.records.length,
    m.heap.word (v.recordAt i + bufctlObj) = v.room m.cache i + pointerSize

/-- The words of a record. -/
theorem Prepared.bufctl_words
    {cache : Nat → KmemCache}
    (prepared : Prepared cache) :
    bufctlObj < (cache bufctlCache).payloadSize ∧
      pointerSize < (cache bufctlCache).payloadSize ∧
      0 < (cache bufctlCache).payloadSize := by
  have room := prepared.bufctl.payload
  have sizes : bufctlObj < bufctlSize ∧ pointerSize < bufctlSize ∧
      0 < bufctlSize := by decide
  omega

namespace Building

variable {v : SlabView}

/-- The room of an object is in the pages. -/
theorem room_inside
    (building : Building m views v)
    (prepared : Prepared m.cache)
    (offSlab : (m.cache v.cache).onSlab = false)
    {i : Nat}
    (less : i < (m.cache v.cache).objsPerSlab) :
    (v.pages m.cache).Holds (v.room m.cache i) := by
  have inside :=
    ((prepared.laid v.cache).offSlab offSlab).objAt_inside building.aligned
      building.color less
  have behind := ((m.cache v.cache).objAt_ge v.page
    ((m.cache v.cache).coloff v.colorIndex) i).1
  have start : v.page ≤ v.room m.cache i := by
    rw [SlabView.room, KmemCache.room]
    omega
  have word : 0 < pointerSize := by decide
  rw [SlabView.room] at start ⊢
  change v.page ≤ _ ∧ _ < v.page + (m.cache v.cache).slabBytes
  omega

/-- What is there of a slab stays when other objects are allocated. -/
theorem of_confined
    {views' : List SlabView}
    {changes : Nat → Prop}
    (building : Building m views v)
    (prepared : Prepared m.cache)
    (offSlab : (m.cache v.cache).onSlab = false)
    (confined : Confined changes m after views views'
      (v.header :: v.records ++ loose) (v.pages m.cache :: extra)) :
    Building after views' v := by
  have isLoose : ∀ bctl ∈ v.records, bctl ∈ v.header :: v.records ++ loose := by
    intro bctl member
    exact List.mem_cons_of_mem _ (List.mem_append_left loose member)
  obtain ⟨toObj, _, positive⟩ := prepared.bufctl_words
  have record : ∀ bctl ∈ v.records, ∀ k < (m.cache bufctlCache).payloadSize,
      after.heap.word (bctl + k) = m.heap.word (bctl + k) := by
    intro bctl member k less
    exact confined.contents bufctlCache bctl (isLoose bctl member)
      (building.given bctl member) (bctl + k) (Nat.le_add_right bctl k)
      (Nat.add_lt_add_left less bctl)
  have cache := confined.cache
  constructor
  case positive => exact building.positive
  case aligned => exact cache ▸ building.aligned
  case color => exact cache ▸ building.color
  case short => exact cache ▸ building.short
  case making =>
    refine ⟨?_, building.making.frees,
      building.making.linked.congr fun bctl member => ?_⟩
    · exact (confined.infos _ List.mem_cons_self building.info).trans
        building.making.header
    · exact record bctl (building.making.records_perm.mem_iff.mpr member) 0
        positive
  case info =>
    rw [cache]
    exact confined.objs _ _ List.mem_cons_self building.info
  case given =>
    intro bctl member
    rw [cache]
    exact confined.objs _ _ (isLoose bctl member) (building.given bctl member)
  case pointed =>
    intro i less
    have holds := building.room_inside prepared offSlab
      (less.trans_le building.short)
    rw [cache]
    exact (confined.words _ List.mem_cons_self _ holds).trans
      (building.pointed i less)
  case rooms =>
    intro i less
    rw [cache]
    exact (record _ (SlabView.recordAt_mem less) _ toObj).trans
      (building.rooms i less)

end Building

/-- A new record, and the pointer to it in front of its object. -/
def Heap.record (heap : Heap) (objp bctl h : Nat) : Heap :=
  ((heap.store objp bctl).store (bctl + bufctlObj) (objp + pointerSize)).store
    (bctl + pointerSize) h

/-- The words that a new record leaves as they are. -/
theorem Heap.record_word
    {heap : Heap}
    {objp bctl h a : Nat}
    (notPointer : a ≠ objp)
    (notObj : a ≠ bctl + bufctlObj)
    (notBacklink : a ≠ bctl + pointerSize) :
    (heap.record objp bctl h).word a = heap.word a := by
  rw [Heap.record, Heap.store_word, Function.update_of_ne notBacklink,
    Heap.store_word, Function.update_of_ne notObj, Heap.store_word,
    Function.update_of_ne notPointer]

section Record

variable {v : SlabView}
variable {bctl : Nat}

/-- The words of a new record and of the pointer to it are of nothing else. -/
structure Apart
    (m : Memory)
    (v : SlabView)
    (bctl : Nat) : Prop where
  pointer : ∀ k < (m.cache bufctlCache).payloadSize,
    v.room m.cache v.records.length ≠ bctl + k
  rooms : ∀ i < v.records.length,
    v.room m.cache i ≠ v.room m.cache v.records.length ∧
      ∀ k < (m.cache bufctlCache).payloadSize, v.room m.cache i ≠ bctl + k
  records : ∀ node ∈ v.records, ∀ k < (m.cache bufctlCache).payloadSize,
    node + k ≠ v.room m.cache v.records.length ∧
      ∀ l < (m.cache bufctlCache).payloadSize, node + k ≠ bctl + l

/-- A new record is apart from those that the slab has. -/
theorem Building.apart
    (building : Building m views v)
    (sound : Sound m [] views (bctl :: v.header :: v.records ++ loose)
      (v.pages m.cache :: extra))
    (offSlab : (m.cache v.cache).onSlab = false)
    (given : ObjOf m.cache views bufctlCache bctl)
    (less : v.records.length < (m.cache v.cache).objsPerSlab) :
    Apart m v bctl := by
  obtain ⟨prepared, placed, _⟩ := sound
  rw [List.nil_append] at placed
  have isExtra : v.pages m.cache ∈ v.pages m.cache :: extra :=
    List.mem_cons_self
  have here : bctl ∈ bctl :: v.header :: v.records ++ loose :=
    List.mem_cons_self
  have there : ∀ node ∈ v.records,
      node ∈ bctl :: v.header :: v.records ++ loose := fun node member =>
    List.mem_cons_of_mem _ (List.mem_cons_of_mem _
      (List.mem_append_left loose member))
  have once : ∀ node ∈ v.records, node ≠ bctl := by
    rintro node member rfl
    refine (List.nodup_cons.mp placed.owners).1 (List.mem_append_left _ ?_)
    exact List.mem_cons_of_mem _ (List.mem_append_left loose member)
  have holds : ∀ i ≤ v.records.length,
      (v.pages m.cache).Holds (v.room m.cache i) := fun i le =>
    building.room_inside prepared offSlab (le.trans_lt less)
  have notRoom : ∀ {node}, node ∈ bctl :: v.header :: v.records ++ loose →
      ObjOf m.cache views bufctlCache node →
      ∀ k < (m.cache bufctlCache).payloadSize, ∀ i ≤ v.records.length,
        node + k ≠ v.room m.cache i := by
    intro node isLoose given k small i le same
    refine placed.loose_not_extra prepared isLoose given
      (Nat.le_add_right node k) (Nat.add_lt_add_left small node) isExtra ?_
    exact same ▸ holds i le
  constructor
  case pointer =>
    exact fun k small same => notRoom here given k small _ le_rfl same.symm
  case rooms =>
    intro i before
    refine ⟨fun same => ?_, fun k small same =>
      notRoom here given k small i before.le same.symm⟩
    have step := Nat.mul_lt_mul_of_pos_left before
      (Nat.pos_of_ne_zero fun none => by
        have apart := ((prepared.laid v.cache).offSlab offSlab).apart
        have word : 0 < pointerSize := by decide
        omega : 0 < (m.cache v.cache).objSize)
    rw [SlabView.room, SlabView.room, KmemCache.room, KmemCache.room] at same
    omega
  case records =>
    intro node member k small
    have nodeGiven := building.given node member
    refine ⟨notRoom (there node member) nodeGiven k small _ le_rfl,
      fun l small' same => once node member ?_⟩
    exact placed.loose_unique prepared (there node member) nodeGiven
      (Nat.le_add_right node k) (Nat.add_lt_add_left small node) here given
      (same ▸ Nat.le_add_right bctl l) (same ▸ Nat.add_lt_add_left small' bctl)

/-- The heap after a slab has got a record. -/
def Memory.recorded (m : Memory) (v : SlabView) (bctl : Nat) : Memory :=
  { m with
    heap :=
      ((m.heap.record (v.room m.cache v.records.length) bctl v.header).store
        bctl v.slab.objects).setSlab v.header (v.extend bctl).slab }

/-- The words that a new record leaves as they are. -/
theorem Memory.recorded_word
    {a : Nat}
    (notPointer : a ≠ v.room m.cache v.records.length)
    (outside : ∀ k, k = bufctlObj ∨ k = pointerSize ∨ k = 0 → a ≠ bctl + k) :
    (m.recorded v bctl).heap.word a = m.heap.word a := by
  refine (Function.update_of_ne (outside 0 (.inr (.inr rfl))) ..).trans ?_
  exact Heap.record_word notPointer (outside _ (.inl rfl))
    (outside _ (.inr (.inl rfl)))

/-- A slab that is being made gets one more record. -/
theorem Building.recorded
    (building : Building m views v)
    (apart : Apart m v bctl)
    (prepared : Prepared m.cache)
    (given : ObjOf m.cache views bufctlCache bctl)
    (notNull : bctl ≠ 0)
    (less : v.records.length < (m.cache v.cache).objsPerSlab) :
    Building (m.recorded v bctl) views (v.extend bctl) := by
  obtain ⟨toObj, toBacklink, positive⟩ := prepared.bufctl_words
  have small : ∀ k, k = bufctlObj ∨ k = pointerSize ∨ k = 0 →
      k < (m.cache bufctlCache).payloadSize := by
    rintro k (rfl | rfl | rfl)
    · exact toObj
    · exact toBacklink
    · exact positive
  have record : ∀ node ∈ v.records, ∀ k < (m.cache bufctlCache).payloadSize,
      (m.recorded v bctl).heap.word (node + k) = m.heap.word (node + k) := by
    intro node member k less
    obtain ⟨notPointer, outside⟩ := apart.records node member k less
    exact Memory.recorded_word notPointer fun l isWord => outside l (small l isWord)
  have last : (v.extend bctl).records.length = v.records.length + 1 :=
    List.length_append
  have cases_last : ∀ {i}, i < (v.extend bctl).records.length →
      i < v.records.length ∨ i = v.records.length := by
    intro i bound
    rw [last] at bound
    exact Nat.lt_succ_iff_lt_or_eq.mp bound
  constructor
  case positive => exact building.positive
  case aligned => exact building.aligned
  case color => exact building.color
  case short =>
    rw [last]
    exact less
  case making =>
    refine building.making.extend notNull (Function.update_self ..)
      (Function.update_self ..) fun node member => ?_
    exact record node member 0 positive
  case info => exact building.info
  case given =>
    intro node member
    rcases List.mem_append.mp member with before | isNew
    · exact building.given node before
    · exact List.mem_singleton.mp isNew ▸ given
  case pointed =>
    intro i bound
    rcases cases_last bound with before | rfl
    · rw [SlabView.recordAt_extend before]
      obtain ⟨notPointer, outside⟩ := apart.rooms i before
      exact (Memory.recorded_word notPointer fun k isWord =>
        outside k (small k isWord)).trans (building.pointed i before)
    · rw [SlabView.recordAt_last]
      have pointer := apart.pointer
      refine (Function.update_of_ne (pointer 0 positive) ..).trans ?_
      refine (Function.update_of_ne (pointer _ toBacklink) ..).trans ?_
      refine (Function.update_of_ne (pointer _ toObj) ..).trans ?_
      exact Function.update_self ..
  case rooms =>
    intro i bound
    rcases cases_last bound with before | rfl
    · rw [SlabView.recordAt_extend before]
      exact (record _ (SlabView.recordAt_mem before) _ toObj).trans
        (building.rooms i before)
    · rw [SlabView.recordAt_last]
      have words : bctl + bufctlObj ≠ bctl ∧
          bctl + bufctlObj ≠ bctl + pointerSize := by
        rw [bufctlObj, pointerSize]
        omega
      refine (Function.update_of_ne words.1 ..).trans ?_
      refine (Function.update_of_ne words.2 ..).trans ?_
      exact Function.update_self ..

/-- The new record is in the place of an object of the caller. -/
theorem Building.sound_recorded
    (building : Building m views v)
    (sound : Sound m [] views (bctl :: v.header :: v.records ++ loose)
      (v.pages m.cache :: extra))
    (offSlab : (m.cache v.cache).onSlab = false)
    (given : ObjOf m.cache views bufctlCache bctl)
    (less : v.records.length < (m.cache v.cache).objsPerSlab) :
    Sound (m.recorded v bctl) [] views
        ((v.extend bctl).header :: (v.extend bctl).records ++ loose)
        ((v.extend bctl).pages m.cache :: extra) ∧
      Confined (fun _ => False) m (m.recorded v bctl) views views loose
        extra := by
  obtain ⟨toObj, toBacklink, positive⟩ := sound.prepared.bufctl_words
  have wrote :=
    Sound.write_spec (bctl :: v.header :: v.records) [v.pages m.cache]
      (m.recorded v bctl).heap sound ?_ ?_ rfl rfl
  · refine ⟨wrote.1.perm_loose ?_ (.refl _), wrote.2⟩
    change (bctl :: v.header :: v.records ++ loose).Perm
      (v.header :: (v.records ++ [bctl]) ++ loose)
    refine List.Perm.append_right loose ?_
    exact (List.Perm.swap _ _ _).trans
      ((List.perm_append_singleton bctl v.records).symm.cons v.header)
  · intro a written
    by_cases pointer : a = v.room m.cache v.records.length
    · refine .inr ⟨_, List.mem_singleton_self _, ?_⟩
      exact pointer ▸ building.room_inside sound.prepared offSlab less
    · refine .inl ⟨bufctlCache, bctl, List.mem_cons_self, given, ?_⟩
      by_contra outside
      refine written (Memory.recorded_word pointer fun k isWord => ?_)
      rintro rfl
      rcases isWord with rfl | rfl | rfl <;> omega
  · intro h written
    have isHeader : h = v.header := by
      by_contra different
      exact written (Function.update_of_ne different ..)
    subst isHeader
    exact ⟨List.mem_cons_of_mem _ List.mem_cons_self, building.info⟩

/-- `slist_add` of a new record. -/
theorem Building.addRecord_eq
    (building : Building m views v)
    (apart : Apart m v bctl)
    (prepared : Prepared m.cache) :
    (m.heap.record (v.room m.cache v.records.length) bctl v.header).addRecord
        v.header bctl =
      some (m.recorded v bctl).heap := by
  obtain ⟨toObj, toBacklink, _⟩ := prepared.bufctl_words
  have making : Making
      (m.heap.record (v.room m.cache v.records.length) bctl v.header) v := by
    refine ⟨building.making.header, building.making.frees,
      building.making.linked.congr fun node member => ?_⟩
    obtain ⟨notPointer, outside⟩ :=
      apart.records node (building.making.records_perm.mem_iff.mpr member) 0
        prepared.bufctl_words.2.2
    exact Heap.record_word notPointer (outside _ toObj) (outside _ toBacklink)
  exact making.addRecord_eq

/-- A slab that is being made is released when there is no memory for a record. -/
theorem Building.freeSlabInfo_spec
    (building : Building m views v)
    (sound : Sound m [] views (v.header :: v.records ++ loose)
      (v.pages m.cache :: extra))
    (offSlab : (m.cache v.cache).onSlab = false) :
    ∃ after views', m.freeSlabInfo v.cache v.header = some after ∧
      Sound after [] views' loose extra ∧
      Confined OfRecords m after views views' loose extra := by
  have same := building.making.records_perm
  refine (sound.perm_loose ((same.cons v.header).append_right loose)
    (.refl _)).freeSlabInfo_offSlab offSlab ⟨?_, ?_, building.info⟩ ?_
      building.making.header rfl
  · exact ⟨v.slab, building.making.header, building.making.linked⟩
  · exact fun bctl member => building.given bctl (same.mem_iff.mpr member)
  · exact same.length_eq ▸ building.short

/-- What a round of `slab_kmem_cache_grow` leaves of a slab that is being made. -/
def Extended
    (m after : Memory)
    (views : List SlabView)
    (loose : List Nat)
    (extra : List SlabPages)
    (v : SlabView)
    (n : Nat)
    (result : Except Errno Unit) : Prop :=
  ∃ views', Confined OfRecords m after views views' loose extra ∧
    (result = .error .enomem ∧ Sound after [] views' loose extra ∨
      result = .ok () ∧ ∃ w : SlabView,
        w = { v with records := w.records, frees := w.frees } ∧
        w.records.length = n ∧ Building after views' w ∧
        Sound after [] views' (w.header :: w.records ++ loose)
          (w.pages after.cache :: extra))

/-- One round of `slab_kmem_cache_grow`. -/
theorem Building.addBufctl_spec
    {kmalloc : Memory → Nat → Option (Nat × Memory)}
    {result : Except Errno Unit}
    (building : Building m views v)
    (kmallocs : Kmallocs kmalloc)
    (sound : Sound m [] views (v.header :: v.records ++ loose)
      (v.pages m.cache :: extra))
    (offSlab : (m.cache v.cache).onSlab = false)
    (less : v.records.length < (m.cache v.cache).objsPerSlab)
    (added : m.addBufctl kmalloc v.cache v.header
      (v.room m.cache v.records.length) = some (result, after)) :
    Extended m after views loose extra v (v.records.length + 1) result := by
  have keep : ∀ obj ∈ loose, obj ∈ v.header :: v.records ++ loose :=
    fun obj isLoose => List.mem_append_right _ isLoose
  have keepPages : ∀ pages ∈ extra, pages ∈ v.pages m.cache :: extra :=
    fun pages isExtra => List.mem_cons_of_mem _ isExtra
  rw [Memory.addBufctl] at added
  split at added
  · cases added
  · next bctl middle got =>
    obtain ⟨views₁, confined, done⟩ :=
      kmallocs (by decide : kmallocCache bufctlSize = some bufctlCache)
        (.inr rfl) sound got
    have building₁ := building.of_confined sound.prepared offSlab confined
    have first : Confined OfRecords m middle views views₁ loose extra :=
      confined.mono (fun _ => .inr) keep keepPages
    rw [← confined.cache] at offSlab less added
    rcases done with ⟨rfl, sound₁⟩ | ⟨notNull, given, sound₁⟩
    · rw [if_pos rfl] at added
      obtain ⟨later, freed, both⟩ := Option.map_eq_some_iff.mp added
      obtain ⟨rfl, rfl⟩ := Prod.mk.inj both
      rw [← confined.cache] at sound₁
      obtain ⟨after, views', released, done, confined'⟩ :=
        building₁.freeSlabInfo_spec sound₁ offSlab
      obtain rfl := Option.some.inj (released.symm.trans freed)
      exact ⟨views', first.trans confined', .inl ⟨rfl, done⟩⟩
    · rw [if_neg notNull] at added
      rw [← confined.cache] at sound₁
      have apart := building₁.apart sound₁ offSlab given less
      have recorded := building₁.addRecord_eq apart sound₁.prepared
      rw [Heap.record] at recorded
      dsimp only at added
      rw [recorded] at added
      obtain ⟨rfl, rfl⟩ := Prod.mk.inj (Option.some.inj added)
      obtain ⟨done, confined'⟩ :=
        building₁.sound_recorded sound₁ offSlab given less
      refine ⟨views₁, first.trans (confined'.mono (fun _ => False.elim)
        (fun _ => id) fun _ => id), .inr ⟨rfl, v.extend bctl, rfl,
          List.length_append, ?_, done⟩⟩
      exact building₁.recorded apart sound₁.prepared given notNull less

/-- The loop of `slab_kmem_cache_grow` that allocates the records. -/
theorem Building.addBufctls_spec
    {kmalloc : Memory → Nat → Option (Nat × Memory)}
    {result : Except Errno Unit}
    (building : Building m views v)
    (none : v.records = [])
    (kmallocs : Kmallocs kmalloc)
    (sound : Sound m [] views (v.header :: v.records ++ loose)
      (v.pages m.cache :: extra))
    (offSlab : (m.cache v.cache).onSlab = false)
    (n : Nat)
    (le : n ≤ (m.cache v.cache).objsPerSlab)
    (added : m.addBufctls kmalloc v.cache v.header (v.room m.cache 0) n =
      some (result, after)) :
    Extended m after views loose extra v n result := by
  induction n generalizing after result with
  | zero =>
      obtain ⟨rfl, rfl⟩ := Prod.mk.inj (Option.some.inj added)
      exact ⟨views, .refl, .inr ⟨rfl, v, rfl, by rw [none]; rfl, building,
        sound⟩⟩
  | succ n inductionHypothesis =>
      rw [Memory.addBufctls] at added
      split at added
      · next middle before =>
        obtain ⟨views₁, confined, ⟨found, _⟩ |
          ⟨_, w, same, length, building₁, sound₁⟩⟩ :=
          inductionHypothesis (Nat.le_of_succ_le le) before
        · cases found
        have isCache : w.cache = v.cache := by rw [same]
        have isHeader : w.header = v.header := by rw [same]
        have isRoom : v.room m.cache 0 +
            (middle.cache v.cache).objSize * n =
              w.room middle.cache w.records.length := by
          rw [length, same, confined.cache]
          rfl
        rw [isRoom, ← isCache, ← isHeader] at added
        rw [← confined.cache, ← isCache] at offSlab le
        obtain ⟨views', confined', done⟩ :=
          building₁.addBufctl_spec kmallocs sound₁ offSlab (length ▸ le) added
        refine ⟨views', confined.trans confined', ?_⟩
        rcases done with failed | ⟨isOk, u, alike, total, rest⟩
        · exact .inl failed
        · refine .inr ⟨isOk, u, ?_, total.trans (by rw [length]), rest⟩
          rw [alike, same]
      · next other failed =>
        obtain ⟨views', confined, done⟩ :=
          inductionHypothesis (Nat.le_of_succ_le le) added
        refine ⟨views', confined, .inl ?_⟩
        rcases done with done | ⟨rfl, _⟩
        · exact done
        · exact absurd added (failed after)

end Record

/-! ## The slab -/

section Grow

variable {v : SlabView}
variable {h kaddr : Nat}

/-- A slab with all its records is complete. -/
theorem Building.fits
    (building : Building m views v)
    (offSlab : (m.cache v.cache).onSlab = false)
    (all : v.records.length = (m.cache v.cache).objsPerSlab) :
    ViewFits m.cache m.heap v := by
  have making := building.making
  constructor
  case header => exact making.header
  case positive => exact building.positive
  case aligned => exact building.aligned
  case color => exact building.color
  case sized => exact all
  case once =>
    rw [making.frees]
    exact List.nodup_reverse.mpr List.nodup_range
  case bound => exact fun i free => making.mem_frees.mp free
  case linked => exact making.linked
  case unlinked => exact fun i taken => absurd taken (making.allFree i)
  case stored =>
    intro _ i less known
    have unaligned := known.resolve_left fun notFree =>
      notFree (making.mem_frees.mpr less)
    have front : v.objAt m.cache i = v.room m.cache i + pointerSize := by
      rw [SlabView.objAt, KmemCache.objAt, KmemCache.alignObj,
        if_neg (by omega : ¬ (m.cache v.cache).align > 0)]
      rfl
    rw [front, Nat.add_sub_cancel]
    exact building.pointed i less
  case onSlab =>
    exact fun onSlab =>
      absurd (offSlab.symm.trans onSlab) Bool.false_ne_true
  case offSlab => exact fun _ i less => building.rooms i less

/-- A complete slab is one of the slabs. -/
theorem Building.attach
    (building : Building m views v)
    (sound : Sound m [] views (v.header :: v.records ++ loose)
      (v.pages m.cache :: extra))
    (offSlab : (m.cache v.cache).onSlab = false)
    (all : v.records.length = (m.cache v.cache).objsPerSlab) :
    Sound m [v] views loose extra := by
  obtain ⟨prepared, placed, queued⟩ := sound
  rw [List.nil_append] at placed
  refine ⟨prepared, ?_, queued⟩
  have owned := SlabView.owned_offSlab offSlab
  refine Placed.attach (owned ▸ placed) (building.fits offSlab all)
    building.making.allFree ?_ (fun _ _ => rfl) rfl rfl
    (fun _ _ _ _ _ _ => rfl) fun _ => ⟨building.info, building.given⟩
  exact placed.not_header_of_loose prepared List.mem_cons_self building.info

/-- A slab without records. -/
def SlabView.blank (c h kaddr colorIndex : Nat) : SlabView where
  header := h
  cache := c
  page := kaddr
  colorIndex := colorIndex
  records := []
  frees := []

/-- The header of a new slab is written. -/
theorem Sound.initSlabInfo_spec
    (sound : Sound m [] views (h :: loose)
      (freshPages kaddr (m.cache c).order :: extra))
    (info : ObjOf m.cache views slabInfoCache h) :
    Sound { m with heap := m.heap.initSlabInfo c h kaddr } [] views (h :: loose)
        ((SlabView.blank c h kaddr 0).pages m.cache :: extra) ∧
      Confined (fun _ => False) m
        { m with heap := m.heap.initSlabInfo c h kaddr } views views loose
        extra := by
  obtain ⟨prepared, placed, queued⟩ := sound
  rw [List.nil_append] at placed
  have other : h ∉ views.map SlabView.header :=
    placed.not_header_of_loose prepared List.mem_cons_self info
  refine ⟨⟨prepared, placed.initSlabInfo other, queued⟩,
    .of_words rfl rfl rfl rfl rfl fun h' isLoose _ => ?_⟩
  refine Function.update_of_ne ?_ ..
  rintro rfl
  exact (List.nodup_cons.mp placed.owners).1 (List.mem_append_left _ isLoose)

/-- The next slab of a cache gets the next color. -/
theorem Sound.nextColor
    (sound : Sound m [] views loose extra)
    (coloring : (m.cache c).coloring = true) :
    Sound
        (m.setState c
          { m.state c with
            colorIndex := ((m.state c).colorIndex + 1) % (m.cache c).colorNum })
        [] views loose extra ∧
      Confined (fun _ => False) m
        (m.setState c
          { m.state c with
            colorIndex := ((m.state c).colorIndex + 1) % (m.cache c).colorNum })
        views views loose extra := by
  obtain ⟨prepared, placed, queued⟩ := id sound
  have colors : (m.cache c).colors = (m.cache c).colorNum := if_pos coloring
  have positive := (prepared.laid c).colors
  rw [colors] at positive
  refine ⟨⟨prepared, placed, sound.queued_setState ?_ fun _ _ before => before⟩,
    ?_⟩
  · refine ⟨?_, (queued c).counted, ?_⟩
    · intro queue
      refine .trans (.of_eq ?_) ((queued c).lined queue)
      cases queue <;> rfl
    · rw [colors]
      exact Nat.mod_lt _ positive
  · have same : ∀ d,
        (Function.update m.state c
          { m.state c with
            colorIndex :=
              ((m.state c).colorIndex + 1) % (m.cache c).colorNum } d).slabCount =
          (m.state d).slabCount ∧
        ∀ queue,
          (Function.update m.state c
            { m.state c with
              colorIndex :=
                ((m.state c).colorIndex + 1) % (m.cache c).colorNum } d).que
            queue = (m.state d).que queue := by
      intro d
      by_cases isCache : d = c
      · subst isCache
        rw [Function.update_self]
        exact ⟨rfl, fun queue => by cases queue <;> rfl⟩
      · rw [Function.update_of_ne isCache]
        exact ⟨rfl, fun _ => rfl⟩
    exact .of_state _ (fun d _ => (same d).1) fun d _ => (same d).2

/-- New pages go back to the pool. -/
theorem Sound.returnPages
    {pages : SlabPages}
    (sound : Sound m [] views loose (pages :: extra)) :
    ∃ heap, m.heap.pgifFreePage pages.kaddr = some heap ∧
      Sound { m with heap } [] views loose extra ∧
      Confined (fun _ => False) m { m with heap } views views loose extra := by
  obtain ⟨prepared, placed, queued⟩ := sound
  rw [List.nil_append] at placed
  obtain ⟨heap, freed, word, slabs, placed⟩ := placed.pgifFreePage
  exact ⟨heap, freed, ⟨prepared, placed, queued⟩,
    .of_eq rfl rfl rfl rfl word slabs⟩

/-- A slab starts without records. -/
theorem Building.blank
    {colorIndex : Nat}
    (positive : 0 < kaddr)
    (aligned : (m.cache c).slabBytes ∣ kaddr)
    (color : colorIndex < (m.cache c).colors)
    (header : m.heap.slabs h = some (SlabView.blank c h kaddr 0).slab)
    (info : ObjOf m.cache views slabInfoCache h) :
    Building m views (SlabView.blank c h kaddr colorIndex) where
  positive := positive
  aligned := aligned
  color := color
  short := Nat.zero_le _
  making := ⟨header, rfl, linked_null⟩
  info := info
  given := fun _ member => absurd member List.not_mem_nil
  pointed := fun _ less => absurd less (Nat.not_lt_zero _)
  rooms := fun _ less => absurd less (Nat.not_lt_zero _)

/-- The end of `slab_kmem_cache_grow`: the records, or nothing of the slab. -/
theorem Building.grown
    {kmalloc : Memory → Nat → Option (Nat × Memory)}
    {result : Except Errno Unit}
    (building : Building m views v)
    (none : v.records = [])
    (kmallocs : Kmallocs kmalloc)
    (sound : Sound m [] views (v.header :: v.records ++ loose)
      (v.pages m.cache :: extra))
    (offSlab : (m.cache v.cache).onSlab = false)
    (added : m.addBufctls kmalloc v.cache v.header (v.room m.cache 0)
      (m.cache v.cache).objsPerSlab = some (result, after)) :
    Grown m after v.cache views loose extra
      (result.map fun _ => v.header) := by
  obtain ⟨views', confined, done⟩ :=
    building.addBufctls_spec none kmallocs sound offSlab _ le_rfl added
  refine ⟨views', confined.mono (fun d ofRecords => ⟨ofRecords, offSlab⟩)
    (fun _ => id) fun _ => id, ?_⟩
  rcases done with ⟨rfl, done⟩ | ⟨rfl, w, same, all, complete, done⟩
  · exact .inl ⟨rfl, done⟩
  · have isCache : w.cache = v.cache := by rw [same]
    have isHeader : w.header = v.header := by rw [same]
    rw [← confined.cache, ← isCache] at offSlab all
    refine .inr ⟨w, by rw [isHeader]; rfl, isCache,
      complete.making.allFree, ?_⟩
    exact complete.attach done offSlab all

/-- The color of a new slab, and the next one where the cache has colors. -/
theorem Sound.colored
    (sound : Sound m [] views loose extra) :
    ∃ after, (if (m.cache c).coloring then
          m.setState c
            { m.state c with
              colorIndex := ((m.state c).colorIndex + 1) % (m.cache c).colorNum }
        else
          m) = after ∧
      after.heap = m.heap ∧ Sound after [] views loose extra ∧
      Confined (fun _ => False) m after views views loose extra := by
  by_cases coloring : (m.cache c).coloring = true
  · exact ⟨_, if_pos coloring, rfl, sound.nextColor coloring⟩
  · exact ⟨_, if_neg coloring, rfl, sound, .refl⟩

/-- What comes before the records changes the caches of records only. -/
theorem Confined.grown
    {views' : List SlabView}
    {middle : Memory}
    {result : Except Errno Nat}
    (confined : Confined (Releasing m.cache c) m middle views views' loose
      extra)
    (grown : Grown middle after c views' loose extra result) :
    Grown m after c views loose extra result := by
  obtain ⟨views', confined', done⟩ := grown
  rw [confined.cache] at confined'
  exact ⟨views', confined.trans confined', done⟩

/-- `slab_kmem_cache_grow` for records elsewhere. -/
theorem Sound.grow_offSlab
    {kmalloc : Memory → Nat → Option (Nat × Memory)}
    {result : Except Errno Nat}
    (sound : Sound m [] views loose extra)
    (kmallocs : Kmallocs kmalloc)
    (offSlab : (m.cache c).onSlab = false)
    (grown : m.slabKmemCacheGrow kmalloc c = some (result, after)) :
    Grown m after c views loose extra result := by
  have releasing : ∀ d, OfRecords d → Releasing m.cache c d :=
    fun d ofRecords => ⟨ofRecords, offSlab⟩
  rw [Memory.slabKmemCacheGrow] at grown
  dsimp only at grown
  split at grown
  · cases grown
  · next middle got =>
    obtain ⟨rfl, rfl⟩ := Prod.mk.inj (Option.some.inj grown)
    obtain ⟨confined, ⟨_, sound⟩ | ⟨_, found, _⟩⟩ :=
      sound.pgifGetFreePageCluster_spec got
    · exact ⟨views, confined.mono (fun _ => False.elim) (fun _ => id)
        fun _ => id, .inl ⟨rfl, sound⟩⟩
    · cases found
  · next kaddr m₁ got =>
    obtain ⟨confined₁, ⟨none, _⟩ | ⟨_, found, positive, aligned, sound₁⟩⟩ :=
      sound.pgifGetFreePageCluster_spec got
    · cases none
    obtain rfl := Option.some.inj found
    rw [offSlab, if_neg Bool.false_ne_true] at grown
    split at grown
    · cases grown
    · next h m₂ allocated =>
      obtain ⟨views₂, confined₂, done⟩ :=
        kmallocs (by decide : kmallocCache slabSize = some slabInfoCache)
          (.inl rfl) sound₁ allocated
      have first : Confined OfRecords m m₂ views views₂ loose extra :=
        (confined₁.mono (fun _ => False.elim) (fun _ => id) fun _ => id).trans
          (confined₂.mono (fun _ => .inl) (fun _ => id)
            fun _ => List.mem_cons_of_mem _)
      rcases done with ⟨rfl, sound₂⟩ | ⟨notNull, info, sound₂⟩
      · rw [if_pos rfl] at grown
        obtain ⟨heap, freed, both⟩ := Option.map_eq_some_iff.mp grown
        obtain ⟨rfl, rfl⟩ := Prod.mk.inj both
        obtain ⟨heap, freed', done, confined₃⟩ := sound₂.returnPages
        obtain rfl := Option.some.inj (freed'.symm.trans freed)
        refine ⟨views₂, ?_, .inl ⟨rfl, done⟩⟩
        exact (first.mono releasing (fun _ => id) fun _ => id).trans
          (confined₃.mono (fun _ => False.elim) (fun _ => id) fun _ => id)
      · rw [if_neg notNull, ← first.cache] at grown
        rw [← first.cache] at offSlab aligned sound₂
        obtain ⟨sound₃, confined₃⟩ := sound₂.initSlabInfo_spec info
        obtain ⟨m₄, isNext, heap₄, sound₄, confined₄⟩ :=
          sound₃.colored (c := c)
        dsimp only at isNext heap₄
        rw [isNext] at grown
        have before : Confined (Releasing m.cache c) m m₄ views views₂ loose
            extra :=
          (first.mono releasing (fun _ => id) fun _ => id).trans
            ((confined₃.mono (fun _ => False.elim) (fun _ => id)
              fun _ => id).trans
                (confined₄.mono (fun _ => False.elim)
                  (fun _ => List.mem_cons_of_mem h)
                  fun _ => List.mem_cons_of_mem _))
        have color := (sound₂.queued c).color
        generalize (m₂.state c).colorIndex = colorIndex at grown color
        have same : m₄.cache = m₂.cache := confined₄.cache
        rw [← same] at grown offSlab aligned color info
        have header : m₄.heap.slabs h =
            some (SlabView.blank c h kaddr 0).slab := by
          rw [heap₄]
          exact Function.update_self ..
        have building : Building m₄ views₂
            (SlabView.blank c h kaddr colorIndex) :=
          .blank positive aligned color header info
        have first : kaddr + (m₄.cache c).coloff colorIndex =
            (SlabView.blank c h kaddr colorIndex).room m₄.cache 0 :=
          (Nat.add_zero _).symm
        rw [first] at grown
        split at grown
        · cases grown
        · split at grown
          · cases grown
          · next added =>
            obtain ⟨rfl, rfl⟩ := Prod.mk.inj (Option.some.inj grown)
            exact before.grown
              (building.grown rfl kmallocs (same ▸ sound₄) offSlab added)
          · next added =>
            obtain ⟨rfl, rfl⟩ := Prod.mk.inj (Option.some.inj grown)
            exact before.grown
              (building.grown rfl kmallocs (same ▸ sound₄) offSlab added)

end Grow

end RiscvWorkshop.PageSlab
