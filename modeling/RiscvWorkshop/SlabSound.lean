import Mathlib
import RiscvWorkshop.SlabQueued

namespace RiscvWorkshop.PageSlab

open Pfdb
open Kmem

/-!
# What a call of the allocator leaves as it is

The slabs of all caches are placed in memory and on the queues of their caches.
A call for one cache is confined to it: objects that other callers have stay
where they are and keep their contents, and so do the slabs of other caches.
-/

/-- The slabs of all caches, of which the idle ones are on no queue. -/
structure Sound
    (m : Memory)
    (idle views : List SlabView)
    (loose : List Nat)
    (extra : List SlabPages) : Prop where
  prepared : Prepared m.cache
  placed : Placed m.cache m.heap (idle ++ views) loose extra
  queued : ∀ c, Queued (m.cache c) c (m.state c) views

/--
A call changes some caches only.  The objects that are loose before and after it
are where they were, with what they held, and so are page clusters without a
slab.
-/
structure Confined
    (changes : Nat → Prop)
    (m after : Memory)
    (views views' : List SlabView)
    (loose : List Nat)
    (extra : List SlabPages) : Prop where
  cache : after.cache = m.cache
  dcache : after.dcache = m.dcache
  held : after.held = m.held
  counts : ∀ c, ¬ changes c →
    (after.state c).slabCount = (m.state c).slabCount
  queues : ∀ c, ¬ changes c → ∀ queue,
    (after.state c).que queue = (m.state c).que queue
  slabs : ∀ v, ¬ changes v.cache → (v ∈ views' ↔ v ∈ views)
  objs : ∀ c, ∀ obj ∈ loose, ObjOf m.cache views c obj →
    ObjOf m.cache views' c obj
  contents : ∀ c, ∀ obj ∈ loose, ObjOf m.cache views c obj → ∀ a,
    obj ≤ a → a < obj + (m.cache c).payloadSize →
      after.heap.word a = m.heap.word a
  infos : ∀ h ∈ loose, ObjOf m.cache views slabInfoCache h →
    after.heap.slabs h = m.heap.slabs h
  words : ∀ pages ∈ extra, ∀ a, pages.Holds a →
    after.heap.word a = m.heap.word a

/-- The order of the loose objects and of the extra pages does not matter. -/
theorem Placed.perm_loose
    {cache : Nat → KmemCache}
    {heap : Heap}
    {views : List SlabView}
    {loose loose' : List Nat}
    {extra extra' : List SlabPages}
    (placed : Placed cache heap views loose extra)
    (same : loose.Perm loose')
    (samePages : extra.Perm extra') :
    Placed cache heap views loose' extra' where
  fits := placed.fits
  pages := placed.pages.trans (samePages.append_right _)
  apart := placed.apart
  headers := placed.headers
  live := placed.live
  once := placed.once
  owners := (same.append_right _).nodup placed.owners
  covers := fun obj =>
    (placed.covers obj).trans (same.append_right _).mem_iff
  kept := placed.kept

section Confined

variable {changes more : Nat → Prop}
variable {m middle after : Memory}
variable {idle views views' views'' others : List SlabView}
variable {loose loose' : List Nat}
variable {extra extra' : List SlabPages}

/-- An object is of the same cache in more slabs. -/
theorem ObjOf.of_subset
    {cache : Nat → KmemCache}
    {c obj : Nat}
    (given : ObjOf cache views c obj)
    (subset : ∀ v ∈ views, v ∈ others) :
    ObjOf cache others c obj := by
  obtain ⟨v, member, isObj⟩ := given
  exact ⟨v, subset v member, isObj⟩

namespace Confined

/-- A call that leaves caches and words as they are. -/
theorem of_words
    (cache : after.cache = m.cache)
    (dcache : after.dcache = m.dcache)
    (held : after.held = m.held)
    (state : after.state = m.state)
    (word : after.heap.word = m.heap.word)
    (infos : ∀ h ∈ loose, ObjOf m.cache views slabInfoCache h →
      after.heap.slabs h = m.heap.slabs h) :
    Confined changes m after views views loose extra where
  cache := cache
  dcache := dcache
  held := held
  counts := fun c _ => congrArg CacheState.slabCount (congrFun state c)
  queues := fun c _ queue => congrArg (CacheState.que · queue) (congrFun state c)
  slabs := fun _ _ => Iff.rfl
  objs := fun _ _ _ given => given
  contents := fun _ _ _ _ a _ _ => congrFun word a
  infos := infos
  words := fun _ _ a _ => congrFun word a

/-- A call that leaves caches, words and headers as they are. -/
theorem of_eq
    (cache : after.cache = m.cache)
    (dcache : after.dcache = m.dcache)
    (held : after.held = m.held)
    (state : after.state = m.state)
    (word : after.heap.word = m.heap.word)
    (slabs : after.heap.slabs = m.heap.slabs) :
    Confined changes m after views views loose extra :=
  of_words cache dcache held state word fun h _ _ => congrFun slabs h

theorem refl :
    Confined changes m m views views loose extra :=
  of_eq rfl rfl rfl rfl rfl rfl

/-- A call that changes the states of some caches only. -/
theorem of_state
    (state : Nat → CacheState)
    (counts : ∀ c, ¬ changes c → (state c).slabCount = (m.state c).slabCount)
    (queues : ∀ c, ¬ changes c → ∀ queue,
      (state c).que queue = (m.state c).que queue) :
    Confined changes m { m with state } views views loose extra where
  cache := rfl
  dcache := rfl
  held := rfl
  counts := counts
  queues := queues
  slabs := fun _ _ => Iff.rfl
  objs := fun _ _ _ given => given
  contents := fun _ _ _ _ _ _ _ => rfl
  infos := fun _ _ _ => rfl
  words := fun _ _ _ _ => rfl

/-- Rewriting the state of a cache is confined to the cache. -/
theorem setState
    {c : Nat}
    (change : changes c)
    (state : CacheState) :
    Confined changes m (m.setState c state) views views loose extra := by
  have same : ∀ d, ¬ changes d →
      Function.update m.state c state d = m.state d := by
    intro d other
    refine Function.update_of_ne ?_ ..
    rintro rfl
    exact other change
  exact .of_state _ (fun d other => congrArg CacheState.slabCount (same d other))
    fun d other queue => congrArg (CacheState.que · queue) (same d other)

theorem trans
    (first : Confined changes m middle views views' loose extra)
    (second : Confined changes middle after views' views'' loose extra) :
    Confined changes m after views views'' loose extra := by
  obtain ⟨cache, dcache, held, counts, queues, slabs, objs, contents, infos,
    words⟩ := second
  rw [first.cache] at objs contents infos
  constructor
  case cache => exact cache.trans first.cache
  case dcache => exact dcache.trans first.dcache
  case held => exact held.trans first.held
  case counts =>
    exact fun c other => (counts c other).trans (first.counts c other)
  case queues =>
    exact fun c other queue =>
      (queues c other queue).trans (first.queues c other queue)
  case slabs =>
    exact fun v other => (slabs v other).trans (first.slabs v other)
  case objs =>
    exact fun c obj isLoose given =>
      objs c obj isLoose (first.objs c obj isLoose given)
  case contents =>
    intro c obj isLoose given a above below
    exact (contents c obj isLoose (first.objs c obj isLoose given) a above
      below).trans (first.contents c obj isLoose given a above below)
  case infos =>
    intro h isLoose given
    exact (infos h isLoose (first.objs _ h isLoose given)).trans
      (first.infos h isLoose given)
  case words =>
    exact fun pages isExtra a holds =>
      (words pages isExtra a holds).trans (first.words pages isExtra a holds)

/-- A slab comes for a cache that changes. -/
theorem cons
    {v : SlabView}
    (change : changes v.cache) :
    Confined changes m m views (v :: views) loose extra where
  cache := rfl
  dcache := rfl
  held := rfl
  counts := fun _ _ => rfl
  queues := fun _ _ _ => rfl
  slabs := by
    intro w other
    rw [List.mem_cons, or_iff_right]
    rintro rfl
    exact other change
  objs := fun _ _ _ given => given.of_subset fun _ => List.mem_cons_of_mem v
  contents := fun _ _ _ _ _ _ _ => rfl
  infos := fun _ _ _ => rfl
  words := fun _ _ _ _ => rfl

/-- What is confined is confined to more caches, for fewer objects and pages. -/
theorem mono
    (confined : Confined changes m after views views' loose extra)
    (implies : ∀ c, changes c → more c)
    (fewer : ∀ obj ∈ loose', obj ∈ loose)
    (less : ∀ pages ∈ extra', pages ∈ extra) :
    Confined more m after views views' loose' extra' where
  cache := confined.cache
  dcache := confined.dcache
  held := confined.held
  counts := fun c other =>
    confined.counts c fun change => other (implies c change)
  queues := fun c other =>
    confined.queues c fun change => other (implies c change)
  slabs := fun v other =>
    confined.slabs v fun change => other (implies v.cache change)
  objs := fun c obj isLoose => confined.objs c obj (fewer obj isLoose)
  contents := fun c obj isLoose => confined.contents c obj (fewer obj isLoose)
  infos := fun h isLoose => confined.infos h (fewer h isLoose)
  words := fun pages isExtra => confined.words pages (less pages isExtra)

/-- The order of the slabs does not matter. -/
theorem perm
    (confined : Confined changes m after views views' loose extra)
    (same : views.Perm others) :
    Confined changes m after others views' loose extra where
  cache := confined.cache
  dcache := confined.dcache
  held := confined.held
  counts := confined.counts
  queues := confined.queues
  slabs := fun v other => (confined.slabs v other).trans same.mem_iff
  objs := fun c obj isLoose given =>
    confined.objs c obj isLoose (given.of_subset fun _ => same.mem_iff.mpr)
  contents := fun c obj isLoose given =>
    confined.contents c obj isLoose
      (given.of_subset fun _ => same.mem_iff.mpr)
  infos := fun h isLoose given =>
    confined.infos h isLoose (given.of_subset fun _ => same.mem_iff.mpr)
  words := confined.words

end Confined

/-- The order of the slabs does not matter. -/
theorem Sound.perm
    (sound : Sound m idle views loose extra)
    (same : views.Perm others) :
    Sound m idle others loose extra where
  prepared := sound.prepared
  placed := sound.placed.perm (same.append_left idle)
  queued := fun c => (sound.queued c).perm same

/-- The order of the loose objects and of the extra pages does not matter. -/
theorem Sound.perm_loose
    (sound : Sound m idle views loose extra)
    (same : loose.Perm loose')
    (samePages : extra.Perm extra') :
    Sound m idle views loose' extra' where
  prepared := sound.prepared
  placed := sound.placed.perm_loose same samePages
  queued := sound.queued

/-- One of the slabs can be seen first. -/
theorem Sound.first
    (sound : Sound m idle views loose extra)
    {v : SlabView}
    (member : v ∈ views) :
    ∃ rest, views.Perm (v :: rest) ∧ Sound m idle (v :: rest) loose extra := by
  have same := List.perm_cons_erase member
  exact ⟨views.erase v, same, sound.perm same⟩

end Confined

/-! ## Words that a call does not write -/

section Apart

variable {cache : Nat → KmemCache}
variable {heap : Heap}
variable {v w : SlabView}
variable {views : List SlabView}
variable {loose : List Nat}
variable {extra : List SlabPages}
variable {c i a obj : Nat}

/-- A header among the objects is in the pages of its slab. -/
theorem ViewFits.holds_header
    (fits : ViewFits cache heap v)
    (prepared : Prepared cache)
    (onSlab : (cache v.cache).onSlab = true) :
    (v.pages cache).Holds v.header := by
  have header := (fits.onSlab onSlab).1
  have bytes : (cache v.cache).slabBytes = pageSize := by
    rw [KmemCache.slabBytes, ((prepared.laid v.cache).onSlab onSlab).onePage,
      Nat.shiftLeft_zero]
  have sizes : slabSize ≤ pageSize ∧ 0 < slabSize := by decide
  change v.page ≤ v.header ∧ v.header < v.page + (cache v.cache).slabBytes
  omega

/-- What belongs to an object is in the pages of some slab. -/
theorem Placed.owns_inside
    (placed : Placed cache heap views loose extra)
    (prepared : Prepared cache)
    (member : v ∈ views)
    (less : i < v.records.length)
    (owns : Owns cache views v i a) :
    ∃ w ∈ views, (w.pages cache).Holds a := by
  rcases owns with ⟨slot, _⟩ | ⟨offSlab, above, below⟩
  · exact ⟨v, member, (placed.slot_inside prepared member less slot).1⟩
  · obtain ⟨w, other, j, taken, _, payload⟩ :=
      placed.record_payload prepared member less offSlab above below
    have slot := placed.slot_of_payload other taken payload
    exact ⟨w, other, (placed.slot_inside prepared other taken.1 slot).1⟩

/-- A page cluster without a slab has no page of a slab. -/
theorem Placed.extra_apart
    (placed : Placed cache heap views loose extra)
    {pages : SlabPages}
    (isExtra : pages ∈ extra)
    (holds : pages.Holds a)
    (member : w ∈ views) :
    ¬ (w.pages cache).Holds a := by
  intro too
  have here : pages ∈ heap.pages :=
    placed.pages.mem_iff.mpr (List.mem_append_left _ isExtra)
  obtain rfl := placed.pages_unique here (placed.pages_mem member) holds too
  exact (List.nodup_append.mp placed.pages_nodup).2.2 _ isExtra _
    (List.mem_map_of_mem member) rfl

/-- The words of a loose object belong to it. -/
theorem Placed.owns_of_loose
    (placed : Placed cache heap views loose extra)
    (isLoose : obj ∈ loose)
    (given : ObjOf cache views c obj)
    (above : obj ≤ a)
    (below : a < obj + (cache c).payloadSize) :
    ∃ w ∈ views, ∃ j, w.Taken j ∧ w.objAt cache j = obj ∧
      Owns cache views w j a := by
  obtain ⟨w, member, rfl, j, taken, rfl⟩ := given
  have payload : w.Payload cache j a := ⟨above, below⟩
  refine ⟨w, member, j, taken, rfl,
    .inl ⟨placed.slot_of_payload member taken payload, ?_⟩⟩
  exact fun given => placed.not_owned_of_loose isLoose given.2

/-- The allocator does not rely on what a caller has, or on pages without a slab. -/
theorem Placed.write_loose
    (placed : Placed cache heap views loose extra)
    (prepared : Prepared cache)
    {after : Heap}
    (word : ∀ a, after.word a ≠ heap.word a →
      (∃ c, ∃ obj ∈ loose, ObjOf cache views c obj ∧ obj ≤ a ∧
        a < obj + (cache c).payloadSize) ∨
      ∃ pages ∈ extra, pages.Holds a)
    (slabs : ∀ v ∈ views, after.slabs v.header = heap.slabs v.header)
    (pages : after.pages = heap.pages)
    (live : after.live = heap.live) :
    Placed cache after views loose extra := by
  refine placed.write slabs pages live fun v member i less a uses => ?_
  by_contra written
  have owns := placed.owns_of_uses prepared member less uses
  rcases word a written with
    ⟨c, obj, isLoose, given, above, below⟩ | ⟨pages, isExtra, holds⟩
  · obtain ⟨w, other, j, taken, at_obj, owns'⟩ :=
      placed.owns_of_loose isLoose given above below
    obtain ⟨rfl, rfl⟩ :=
      placed.owns_unique prepared member other less taken.1 owns owns'
    obtain ⟨u, there, rfl, k, taken', at_obj'⟩ := given
    obtain ⟨rfl, rfl⟩ :=
      placed.objAt_unique prepared member there less taken'.1
        (at_obj.trans at_obj'.symm)
    refine placed.uses_not_payload prepared member less ?_
      (fun onSlab => ((placed.fits v member).onSlab onSlab).2.2 i taken onSlab)
      uses ?_
    · rw [at_obj]
      exact placed.not_owned_of_loose isLoose
    · rw [← at_obj] at above below
      exact ⟨above, below⟩
  · obtain ⟨w, other, too⟩ := placed.owns_inside prepared member less owns
    exact placed.extra_apart isExtra holds other too

/-- A loose slab header is not the header of a slab that is placed. -/
theorem Placed.header_not_loose
    (placed : Placed cache heap views loose extra)
    (prepared : Prepared cache)
    (member : v ∈ views)
    (isLoose : obj ∈ loose)
    (given : ObjOf cache views slabInfoCache obj) :
    obj ≠ v.header := by
  rintro rfl
  cases kind : (cache v.cache).onSlab with
  | true =>
      obtain ⟨w, other, isInfo, j, taken, at_header⟩ := given
      have room := prepared.slabInfo.payload
      rw [← isInfo] at room
      have header := ((placed.fits v member).onSlab kind).1
      have payload : w.Payload cache j v.header := by
        rw [SlabView.Payload, KmemCache.Payload]
        rw [SlabView.objAt] at at_header
        have positive : 0 < slabSize := by decide
        omega
      have slot := placed.slot_of_payload other taken payload
      have inside := placed.slot_inside prepared other taken.1 slot
      have holds := (placed.fits v member).holds_header prepared kind
      obtain rfl := placed.view_unique other member inside.1 holds
      exact absurd (inside.2 kind) (Nat.lt_irrefl _)
  | false =>
      refine (placed.owner_unique member ?_).1 isLoose
      rw [SlabView.owned_offSlab kind]
      exact List.mem_cons_self

/-- So it is of no slab. -/
theorem Placed.not_header_of_loose
    (placed : Placed cache heap views loose extra)
    (prepared : Prepared cache)
    (isLoose : obj ∈ loose)
    (given : ObjOf cache views slabInfoCache obj) :
    obj ∉ views.map SlabView.header := by
  intro again
  obtain ⟨v, member, same⟩ := List.mem_map.mp again
  exact placed.header_not_loose prepared member isLoose given same.symm

/-- The page cluster of an address in a slab. -/
theorem Placed.clusterOf_eq
    (placed : Placed cache heap views loose extra)
    (member : v ∈ views)
    (holds : (v.pages cache).Holds a) :
    heap.clusterOf a = some (v.pages cache) := by
  have here := placed.pages_mem member
  cases found : heap.clusterOf a with
  | none =>
      have missing := List.find?_eq_none.mp found _ here
      exact absurd holds (of_decide_eq_false (Bool.eq_false_iff.mpr missing))
  | some pages =>
      have too : pages.Holds a := by
        simpa only [decide_eq_true_eq] using List.find?_some found
      have there := List.mem_of_find?_eq_some found
      rw [placed.pages_unique there here too holds]

/-- An object is in the pages of its slab. -/
theorem Placed.holds_objAt
    (placed : Placed cache heap views loose extra)
    (prepared : Prepared cache)
    (member : v ∈ views)
    (less : i < v.records.length) :
    (v.pages cache).Holds (v.objAt cache i) := by
  have fits := placed.fits v member
  have inside :=
    (prepared.laid v.cache).objAt_inside fits.aligned fits.color
      (fits.sized ▸ less)
  exact ⟨by rw [SlabView.objAt]; exact (Nat.le_add_right _ _).trans inside.1,
    inside.2⟩

/-- The record of an object that is given out is found from the object. -/
theorem Placed.bufctlOf_eq
    (placed : Placed cache heap views loose extra)
    (member : v ∈ views)
    (taken : v.Taken i) :
    heap.bufctlOf (cache v.cache) (v.objAt cache i) = v.recordAt i := by
  have fits := placed.fits v member
  rw [Heap.bufctlOf]
  split_ifs with plain
  · obtain ⟨unaligned, onSlab⟩ := plain
    rw [(fits.onSlab onSlab).2.1 i taken.1, SlabView.objAt, KmemCache.objAt,
      KmemCache.alignObj, if_neg (by omega)]
    exact Nat.add_sub_cancel _ _
  · refine fits.stored (fun unaligned => ?_) i taken.1 (.inl taken.2)
    exact Bool.eq_false_iff.mpr fun onSlab => plain ⟨unaligned, onSlab⟩

/-- Loose objects have no word in common. -/
theorem Placed.loose_unique
    (placed : Placed cache heap views loose extra)
    (prepared : Prepared cache)
    {d obj' : Nat}
    (isLoose : obj ∈ loose)
    (given : ObjOf cache views c obj)
    (above : obj ≤ a)
    (below : a < obj + (cache c).payloadSize)
    (isLoose' : obj' ∈ loose)
    (given' : ObjOf cache views d obj')
    (above' : obj' ≤ a)
    (below' : a < obj' + (cache d).payloadSize) :
    obj = obj' := by
  obtain ⟨v, member, i, taken, rfl, owns⟩ :=
    placed.owns_of_loose isLoose given above below
  obtain ⟨w, other, j, taken', rfl, owns'⟩ :=
    placed.owns_of_loose isLoose' given' above' below'
  obtain ⟨rfl, rfl⟩ :=
    placed.owns_unique prepared member other taken.1 taken'.1 owns owns'
  rfl

/-- A loose object is not in pages without a slab. -/
theorem Placed.loose_not_extra
    (placed : Placed cache heap views loose extra)
    (prepared : Prepared cache)
    (isLoose : obj ∈ loose)
    (given : ObjOf cache views c obj)
    (above : obj ≤ a)
    (below : a < obj + (cache c).payloadSize)
    {pages : SlabPages}
    (isExtra : pages ∈ extra) :
    ¬ pages.Holds a := by
  intro holds
  obtain ⟨v, member, i, taken, rfl, owns⟩ :=
    placed.owns_of_loose isLoose given above below
  obtain ⟨w, other, too⟩ := placed.owns_inside prepared member taken.1 owns
  exact placed.extra_apart isExtra holds other too

/--
The holder of some objects and pages writes to them, and to the slab headers
among them.
-/
theorem Sound.write_spec
    {m : Memory}
    (mine : List Nat)
    (own : List SlabPages)
    (heap : Heap)
    (sound : Sound m [] views (mine ++ loose) (own ++ extra))
    (word : ∀ a, heap.word a ≠ m.heap.word a →
      (∃ c, ∃ obj ∈ mine, ObjOf m.cache views c obj ∧ obj ≤ a ∧
        a < obj + (m.cache c).payloadSize) ∨
      ∃ pages ∈ own, pages.Holds a)
    (slabs : ∀ h, heap.slabs h ≠ m.heap.slabs h →
      h ∈ mine ∧ ObjOf m.cache views slabInfoCache h)
    (pages : heap.pages = m.heap.pages)
    (live : heap.live = m.heap.live) :
    Sound { m with heap } [] views (mine ++ loose) (own ++ extra) ∧
      Confined (fun _ => False) m { m with heap } views views loose extra := by
  obtain ⟨prepared, placed, queued⟩ := sound
  rw [List.nil_append] at placed
  have once : ∀ obj ∈ mine, obj ∉ loose := by
    intro obj isMine isLoose
    have owners := placed.owners.of_append_left
    exact (List.nodup_append.mp owners).2.2 obj isMine obj isLoose rfl
  have oncePages : ∀ pages ∈ own, pages ∉ extra := by
    intro pages isOwn isExtra
    have owners := placed.pages_nodup.of_append_left
    exact (List.nodup_append.mp owners).2.2 pages isOwn pages isExtra rfl
  refine ⟨⟨prepared, ?_, queued⟩, ?_⟩
  · refine placed.write_loose prepared ?_ ?_ pages live
    · intro a written
      rcases word a written with
        ⟨c, obj, isMine, rest⟩ | ⟨pages, isOwn, holds⟩
      · exact .inl ⟨c, obj, List.mem_append_left _ isMine, rest⟩
      · exact .inr ⟨pages, List.mem_append_left _ isOwn, holds⟩
    · intro v member
      by_contra written
      obtain ⟨isMine, given⟩ := slabs v.header written
      exact placed.header_not_loose prepared member
        (List.mem_append_left _ isMine) given rfl
  constructor
  case cache => rfl
  case dcache => rfl
  case held => rfl
  case counts => exact fun _ _ => rfl
  case queues => exact fun _ _ _ => rfl
  case slabs => exact fun _ _ => Iff.rfl
  case objs => exact fun _ _ _ given => given
  case contents =>
    intro c obj isLoose given a above below
    by_contra written
    rcases word a written with
      ⟨d, obj', isMine, given', above', below'⟩ | ⟨pages, isOwn, holds⟩
    · have same :=
        placed.loose_unique prepared (List.mem_append_left _ isMine) given'
          above' below' (List.mem_append_right _ isLoose) given above below
      exact once obj' isMine (same ▸ isLoose)
    · exact placed.loose_not_extra prepared (List.mem_append_right _ isLoose)
        given above below (List.mem_append_left _ isOwn) holds
  case infos =>
    intro h isLoose _
    by_contra written
    exact once h (slabs h written).1 isLoose
  case words =>
    intro pages isExtra a holds
    by_contra written
    rcases word a written with
      ⟨d, obj', isMine, given', above', below'⟩ | ⟨other, isOwn, too⟩
    · exact placed.loose_not_extra prepared (List.mem_append_left _ isMine)
        given' above' below' (List.mem_append_right _ isExtra) holds
    · have same :=
        placed.pages_unique
          (placed.pages.mem_iff.mpr (List.mem_append_left _
            (List.mem_append_left _ isOwn)))
          (placed.pages.mem_iff.mpr (List.mem_append_left _
            (List.mem_append_right _ isExtra))) too holds
      exact oncePages other isOwn (same ▸ isExtra)

/--
A call that writes about one object, and changes the header, the free objects
and the cache of its slab.
-/
theorem Placed.confined_own
    {m after : Memory}
    {rest : List SlabView}
    {loose' frees : List Nat}
    (placed : Placed m.cache m.heap (v :: rest) loose' extra)
    (prepared : Prepared m.cache)
    (less : i < v.records.length)
    (notGiven : ¬ ∃ u ∈ v :: rest, v.objAt m.cache i ∈ u.owned m.cache)
    (fitted : v.Fitted m.cache i)
    (notLoose : v.objAt m.cache i ∉ loose)
    (fewer : ∀ obj ∈ loose, obj ∈ loose')
    (cache : after.cache = m.cache)
    (dcache : after.dcache = m.dcache)
    (held : after.held = m.held)
    (state : ∀ c, c ≠ v.cache → after.state c = m.state c)
    (slabs : ∀ h, h ≠ v.header → after.heap.slabs h = m.heap.slabs h)
    (same : ∀ a, a ≠ v.recordAt i → a ≠ v.objAt m.cache i - pointerSize →
      ¬ v.Payload m.cache i a → after.heap.word a = m.heap.word a)
    (still : ∀ j, v.Taken j → j ∈ frees → j = i) :
    Confined (· = v.cache) m after (v :: rest) ({ v with frees } :: rest) loose
      extra := by
  have here : v ∈ v :: rest := List.mem_cons_self
  constructor
  case cache => exact cache
  case dcache => exact dcache
  case held => exact held
  case counts => exact fun c other => congrArg _ (state c other)
  case queues =>
    exact fun c other queue => congrArg (CacheState.que · queue) (state c other)
  case slabs =>
    intro w other
    rw [List.mem_cons, List.mem_cons]
    refine or_congr_left (iff_of_false ?_ ?_)
    · exact fun same => other (same ▸ rfl)
    · exact fun same => other (same ▸ rfl)
  case objs =>
    intro c obj isLoose given
    refine given.frees fun j taken at_obj isFree => notLoose ?_
    rw [← still j taken isFree, at_obj]
    exact isLoose
  case contents =>
    intro c obj isLoose given a above below
    obtain ⟨w, other, j, taken, at_obj, owns⟩ :=
      placed.owns_of_loose (fewer obj isLoose) given above below
    have different : ¬ (v = w ∧ i = j) := by
      rintro ⟨rfl, rfl⟩
      exact notLoose (at_obj ▸ isLoose)
    obtain ⟨notRecord, notFront, outside⟩ :=
      placed.owns_apart prepared here other less taken.1 different notGiven
        fitted owns
    exact same a notRecord notFront outside
  case infos =>
    intro h isLoose given
    exact slabs h (placed.header_not_loose prepared here (fewer h isLoose) given)
  case words =>
    intro pages isExtra a holds
    have outside : ¬ Owns m.cache (v :: rest) v i a := by
      intro owns
      obtain ⟨w, member, too⟩ := placed.owns_inside prepared here less owns
      exact placed.extra_apart isExtra holds member too
    have front := prepared.slot_of_front v i
    refine same a ?_ ?_ fun payload => ?_
    · rintro rfl
      exact outside (placed.owns_of_uses prepared here less (.inl rfl))
    · rintro rfl
      exact outside (.inl ⟨front.1, fun given => front.2 given.1⟩)
    · exact outside (.inl ⟨KmemCache.slot_of_payload fitted payload,
        fun given => notGiven given.2⟩)

end Apart

end RiscvWorkshop.PageSlab
