import Mathlib
import RiscvWorkshop.SlabRelease

namespace RiscvWorkshop.PageSlab

open Pfdb
open Kmem

/-!
# Using caches

A cache is shrunk by releasing the slabs of its free queue one after another.
When nobody has an object any more, the preallocated caches are shrunk from the
largest to the smallest, and the last records go after all that needed them.
-/

variable {m after : Memory}
variable {views views' : List SlabView}
variable {loose : List Nat}
variable {extra : List SlabPages}
variable {c h : Nat}
variable {v : SlabView}

/-- A slab on the free queue has no object that is given out. -/
theorem ViewFits.allFree
    {cache : Nat → KmemCache}
    {heap : Heap}
    (fits : ViewFits cache heap v)
    (isFree : v.queue = .onFree) :
    ∀ i, ¬ v.Taken i := by
  intro i taken
  have less := fits.frees_lt taken
  rw [SlabView.queue] at isFree
  split_ifs at isFree with none all
  omega

/-- And such a slab is on the free queue. -/
theorem ViewFits.queue_of_allFree
    {cache : Nat → KmemCache}
    {heap : Heap}
    (fits : ViewFits cache heap v)
    (laid : Laid (cache v.cache))
    (allFree : ∀ i, ¬ v.Taken i) :
    v.queue = .onFree := by
  have lengths := (fits.frees_perm allFree).length_eq
  rw [List.length_range] at lengths
  have some : v.frees ≠ [] := by
    have objs := laid.objs
    rw [← fits.sized, ← lengths] at objs
    exact List.ne_nil_of_length_pos objs
  rw [SlabView.queue, if_neg some, if_pos lengths]

/-- The state after the first slab of the free queue is taken off. -/
def CacheState.freeTop (state : CacheState) : CacheState :=
  { state with
    freeQue := state.freeQue.tail
    slabCount := state.slabCount - 1 }

/-- The first slab of the free queue leaves this queue only. -/
theorem Queued.freeTop
    {cache : KmemCache}
    {state : CacheState}
    (queued : Queued cache c state (v :: views))
    (isCache : v.cache = c)
    (isFree : v.queue = .onFree)
    (once : v.header ∉ views.map SlabView.header)
    (top : state.freeQue = v.header :: state.freeQue.tail) :
    Queued cache c state.freeTop views := by
  have notOn : ∀ queue, queue ≠ .onFree → v.header ∉ state.que queue := by
    intro queue other linked
    obtain ⟨w, member, _, isOn, same⟩ := queued.mem_que.mp linked
    rcases List.mem_cons.mp member with rfl | there
    · exact other (isOn.symm.trans isFree)
    · exact once (same ▸ List.mem_map_of_mem there)
  obtain ⟨lined, counted, color⟩ := queued.leave isCache once
  have erased : state.freeQue.erase v.header = state.freeQue.tail := by
    rw [top]
    exact List.erase_cons_head ..
  constructor
  case lined =>
    intro queue
    refine .trans (.of_eq ?_) (lined queue)
    cases queue with
    | onPartial => exact (List.erase_of_not_mem (notOn .onPartial nofun)).symm
    | onFull => exact (List.erase_of_not_mem (notOn .onFull nofun)).symm
    | onFree => exact erased.symm
  case counted => exact counted
  case color => exact color

/-- The slab that the free queue starts with. -/
theorem Sound.free_top
    {rest : List Nat}
    (sound : Sound m [] views loose extra)
    (top : (m.state c).freeQue = h :: rest) :
    ∃ v others, views.Perm (v :: others) ∧ v.header = h ∧ v.cache = c ∧
      v.queue = .onFree ∧ Sound m [] (v :: others) loose extra := by
  have linked : h ∈ (m.state c).que .onFree := by
    rw [CacheState.que, top]
    exact List.mem_cons_self
  obtain ⟨v, member, isCache, isFree, at_header⟩ :=
    (sound.queued c).mem_que.mp linked
  obtain ⟨others, same, sound⟩ := sound.first member
  exact ⟨v, others, same, at_header, isCache, isFree, sound⟩

/-- A slab that is taken off the free queue is made of loose objects and pages. -/
theorem Sound.detach
    (sound : Sound m [] (v :: views) loose extra)
    (isFree : v.queue = .onFree)
    (top : (m.state v.cache).freeQue =
      v.header :: (m.state v.cache).freeQue.tail) :
    Sound (m.setState v.cache (m.state v.cache).freeTop) [] views
      (v.owned m.cache ++ loose) (v.pages m.cache :: extra) := by
  obtain ⟨prepared, placed, queued⟩ := id sound
  rw [List.nil_append] at placed
  have once := (List.nodup_cons.mp placed.headers).1
  have fits := placed.fits v List.mem_cons_self
  constructor
  case prepared => exact prepared
  case placed => exact placed.detach (fits.allFree isFree)
  case queued =>
    refine sound.queued_setState ((queued v.cache).freeTop rfl isFree once top)
      fun d other before => ?_
    exact before.of_cons_other (Ne.symm other)

/-- One round of `slab_kmem_cache_reap`. -/
theorem Sound.reap_round
    (sound : Sound m [] (v :: views) loose extra)
    (isFree : v.queue = .onFree)
    (top : (m.state v.cache).freeQue =
      v.header :: (m.state v.cache).freeQue.tail) :
    ∃ after views',
      (m.setState v.cache (m.state v.cache).freeTop).freeSlabInfo v.cache
        v.header = some after ∧
      Sound after [] views' loose extra ∧
      Confined (Releasing m.cache v.cache)
        (m.setState v.cache (m.state v.cache).freeTop) after views views' loose
        extra := by
  have placed := sound.placed
  rw [List.nil_append] at placed
  have fits := placed.fits v List.mem_cons_self
  have allFree := fits.allFree isFree
  refine (sound.detach isFree top).freeSlabInfo_spec fits allFree
    fun offSlab => ?_
  have kept := placed.kept v List.mem_cons_self offSlab
  exact ⟨kept.1.of_allFree allFree,
    fun bctl member => (kept.2 bctl member).of_allFree allFree⟩

/-- Taking a slab off the free queue is confined to its cache. -/
theorem Sound.confined_detach
    (sound : Sound m [] (v :: views) loose extra)
    (isFree : v.queue = .onFree) :
    Confined (· = v.cache) m (m.setState v.cache (m.state v.cache).freeTop)
      (v :: views) views loose extra := by
  have allFree :=
    (sound.placed.fits v List.mem_cons_self).allFree isFree
  have state : ∀ d, ¬ d = v.cache →
      (m.setState v.cache (m.state v.cache).freeTop).state d = m.state d :=
    fun d other => Function.update_of_ne other ..
  constructor
  case cache => rfl
  case dcache => rfl
  case held => rfl
  case counts => exact fun d other => congrArg _ (state d other)
  case queues =>
    exact fun d other queue => congrArg (CacheState.que · queue) (state d other)
  case slabs =>
    intro w other
    rw [List.mem_cons]
    refine (or_iff_right ?_).symm
    rintro rfl
    exact other rfl
  case objs => exact fun _ _ _ given => given.of_allFree allFree
  case contents => exact fun _ _ _ _ _ _ _ => rfl
  case infos => exact fun _ _ _ => rfl
  case words => exact fun _ _ _ _ => rfl

/-- What `slab_kmem_cache_reap` does to the queues and the count of a cache. -/
structure Reaped
    (force : Bool)
    (cache : KmemCache)
    (state after : CacheState) : Prop where
  stopped : after.freeQue = [] ∨
    force = false ∧ after.slabCount ≤ cache.limits
  least : force = false →
    min state.slabCount cache.limits ≤ after.slabCount
  inOrder : after.freeQue <:+ state.freeQue
  inUse : ∀ queue, queue ≠ .onFree → after.que queue = state.que queue

/-- One round before the others. -/
theorem Reaped.after_round
    {force : Bool}
    {cache : KmemCache}
    {state middle after : CacheState}
    {rest : List Nat}
    (reaped : Reaped force cache middle after)
    (top : state.freeQue = h :: rest)
    (goesOn : ¬ (¬ force = true ∧ state.slabCount ≤ cache.limits))
    (tail : middle.freeQue = rest)
    (count : middle.slabCount = state.slabCount - 1)
    (inUse : ∀ queue, queue ≠ .onFree → middle.que queue = state.que queue) :
    Reaped force cache state after where
  stopped := reaped.stopped
  least := by
    intro notForced
    have least := reaped.least notForced
    have more : cache.limits < state.slabCount := by
      by_contra less
      exact goesOn ⟨notForced ▸ Bool.false_ne_true, Nat.not_lt.mp less⟩
    rw [count] at least
    omega
  inOrder := by
    refine reaped.inOrder.trans ?_
    rw [tail, top]
    exact List.suffix_cons h rest
  inUse := fun queue busy =>
    (reaped.inUse queue busy).trans (inUse queue busy)

/-- The loop of `slab_kmem_cache_reap`. -/
theorem Sound.reapLoop_spec
    (force : Bool)
    (rounds : Nat)
    (enough : (m.state c).freeQue.length < rounds)
    (sound : Sound m [] views loose extra) :
    ∃ after views', Memory.reapLoop force c rounds m = some after ∧
      Sound after [] views' loose extra ∧
      Reaped force (m.cache c) (m.state c) (after.state c) ∧
      Confined (Using m.cache c) m after views views' loose extra := by
  induction rounds generalizing m views with
  | zero => exact absurd enough (Nat.not_lt_zero _)
  | succ rounds inductionHypothesis =>
      cases top : (m.state c).freeQue with
      | nil =>
          refine ⟨m, views, ?_, sound, ?_, .refl⟩
          · rw [Memory.reapLoop]
            dsimp only
            rw [top]
          · exact ⟨.inl top, fun _ => min_le_left _ _, List.suffix_refl _,
              fun _ _ => rfl⟩
      | cons h rest =>
          by_cases enoughLeft :
              ¬ force = true ∧ (m.state c).slabCount ≤ (m.cache c).limits
          · have notForced := Bool.eq_false_iff.mpr enoughLeft.1
            refine ⟨m, views, ?_, sound, ?_, .refl⟩
            · rw [Memory.reapLoop]
              dsimp only
              rw [top]
              exact if_pos enoughLeft
            · exact ⟨.inr ⟨notForced, enoughLeft.2⟩,
                fun _ => min_le_left _ _, List.suffix_refl _, fun _ _ => rfl⟩
          · obtain ⟨v, others, same, rfl, rfl, isFree, sound⟩ :=
              sound.free_top top
            have isTop : (m.state v.cache).freeQue =
                v.header :: (m.state v.cache).freeQue.tail := by
              rw [top, List.tail_cons]
            obtain ⟨middle, views₁, released, sound₁, confined₁⟩ :=
              sound.reap_round isFree isTop
            have detached := (sound.confined_detach isFree).perm same.symm
            have apart := sound.prepared.not_releasing v.cache
            -- the release leaves the queues of the cache as they are
            have queues : ∀ queue, (middle.state v.cache).que queue =
                (m.state v.cache).freeTop.que queue := by
              intro queue
              refine (confined₁.queues v.cache apart queue).trans ?_
              rw [Memory.setState_state, Function.update_self]
            have count : (middle.state v.cache).slabCount =
                (m.state v.cache).slabCount - 1 := by
              refine (confined₁.counts v.cache apart).trans ?_
              rw [Memory.setState_state, Function.update_self]
              rfl
            have tail : (middle.state v.cache).freeQue = rest := by
              refine (queues .onFree).trans ?_
              rw [CacheState.que, CacheState.freeTop, top, List.tail_cons]
            have less : rest.length < rounds := by
              rw [top, List.length_cons] at enough
              exact Nat.lt_of_succ_lt_succ enough
            obtain ⟨after, views', looped, done, reaped, confined₂⟩ :=
              inductionHypothesis (tail.symm ▸ less) sound₁
            refine ⟨after, views', ?_, done, ?_, ?_⟩
            · rw [Memory.reapLoop]
              dsimp only
              rw [top]
              dsimp only
              rw [if_neg enoughLeft]
              have next := released
              rw [CacheState.freeTop, top, List.tail_cons] at next
              rw [next]
              exact looped
            · rw [confined₁.cache] at reaped
              exact reaped.after_round top enoughLeft tail count
                fun queue busy => (queues queue).trans (by
                  cases queue with
                  | onPartial => rfl
                  | onFull => rfl
                  | onFree => exact absurd rfl busy)
            · rw [confined₁.cache] at confined₂
              exact (detached.mono (fun _ => .inl) (fun _ => id)
                fun _ => id).trans ((confined₁.mono (fun _ => .inr)
                  (fun _ => id) fun _ => id).trans confined₂)

/-- `slab_kmem_cache_reap`. -/
theorem Sound.slabKmemCacheReap_spec
    (sound : Sound m [] views loose extra)
    (c : Nat)
    (force : Bool) :
    ∃ after views', m.slabKmemCacheReap c force = some after ∧
      Sound after [] views' loose extra ∧
      Reaped force (m.cache c) (m.state c) (after.state c) ∧
      Confined (Using m.cache c) m after views views' loose extra :=
  sound.reapLoop_spec force _ (Nat.lt_succ_self _)

/-- A cache with empty queues has no slab. -/
theorem Queued.none_of_empty
    {cache : KmemCache}
    {state : CacheState}
    (queued : Queued cache c state views)
    (empty : ∀ queue, state.que queue = []) :
    ∀ v ∈ views, v.cache ≠ c := by
  intro v member isCache
  have linked := queued.mem_que.mpr ⟨v, member, isCache, rfl, rfl⟩
  rw [empty] at linked
  exact List.not_mem_nil linked

/-- `slab_kmem_cache_destroy`, which keeps a cache that is in use. -/
theorem Sound.slabKmemCacheDestroy_spec
    (sound : Sound m [] views loose extra)
    (c : Nat) :
    ∃ after views', m.slabKmemCacheDestroy c = some after ∧
      Sound after [] views' loose extra ∧
      Confined (Using m.cache c) m after views views' loose extra ∧
      ((m.state c).isBusy = false → ∀ v ∈ views', v.cache ≠ c) := by
  have notBusy : (m.state c).isBusy = false →
      ∀ queue, queue ≠ .onFree → (m.state c).que queue = [] := by
    intro idle queue busy
    rw [CacheState.isBusy, Bool.or_eq_false_iff, Bool.not_eq_false',
      Bool.not_eq_false', List.isEmpty_iff, List.isEmpty_iff] at idle
    cases queue with
    | onPartial => exact idle.1
    | onFull => exact idle.2
    | onFree => exact absurd rfl busy
  by_cases none : (m.state c).freeQue = []
  · refine ⟨m, views, ?_, sound, .refl, fun idle => ?_⟩
    · rw [Memory.slabKmemCacheDestroy, Memory.destroyLoop]
      exact if_pos none
    · refine (sound.queued c).none_of_empty fun queue => ?_
      by_cases isFree : queue = .onFree
      · exact isFree ▸ none
      · exact notBusy idle queue isFree
  · cases busy : (m.state c).isBusy with
    | true =>
        refine ⟨m, views, ?_, sound, .refl, nofun⟩
        rw [Memory.slabKmemCacheDestroy, Memory.destroyLoop]
        rw [if_neg none, busy]
        exact if_pos rfl
    | false =>
        obtain ⟨after, views', reap, done, reaped, confined⟩ :=
          sound.slabKmemCacheReap_spec c true
        have emptied := reaped.stopped.resolve_right fun kept =>
          absurd kept.1.symm Bool.false_ne_true
        refine ⟨after, views', ?_, done, confined, fun _ => ?_⟩
        · rw [Memory.slabKmemCacheDestroy, Memory.destroyLoop]
          rw [if_neg none, busy, if_neg Bool.false_ne_true, reap]
          dsimp only
          rw [Memory.destroyLoop]
          exact if_pos emptied
        · refine (done.queued c).none_of_empty fun queue => ?_
          by_cases isFree : queue = .onFree
          · exact isFree ▸ emptied
          · exact (reaped.inUse queue isFree).trans (notBusy busy queue isFree)

/-! ## Nothing is left -/

/-- Without callers, the objects given out are records of other slabs. -/
theorem Sound.ofRecords_of_taken
    {i : Nat}
    (sound : Sound m [] views [] extra)
    (member : v ∈ views)
    (taken : v.Taken i) :
    OfRecords v.cache ∧ ∃ w ∈ views, (m.cache w.cache).onSlab = false := by
  obtain ⟨prepared, placed, _⟩ := sound
  have covered := placed.covered member taken
  obtain ⟨w, other, owns⟩ := List.mem_flatMap.mp covered
  have offSlab : (m.cache w.cache).onSlab = false := by
    refine Bool.eq_false_iff.mpr fun onSlab => ?_
    rw [SlabView.owned_onSlab onSlab] at owns
    exact List.not_mem_nil owns
  have kept := placed.kept w other offSlab
  have place : ∀ {d}, ObjOf m.cache views d (v.objAt m.cache i) →
      v.cache = d := by
    rintro d ⟨u, there, rfl, j, taken', at_obj⟩
    exact congrArg SlabView.cache (placed.objAt_unique prepared member there
      taken.1 taken'.1 at_obj.symm).1
  refine ⟨?_, w, other, offSlab⟩
  rw [SlabView.owned_offSlab offSlab] at owns
  rcases List.mem_cons.mp owns with isHeader | isRecord
  · exact .inl (place (isHeader ▸ kept.1))
  · exact .inr (place (kept.2 _ isRecord))

/-- Without callers, an object is given out to a slab of a larger cache. -/
theorem Sound.allFree_of_largest
    (sound : Sound m [] views [] extra)
    (largest : ∀ w ∈ views, w.cache ≤ v.cache)
    (small : ∀ c ≤ slabInfoCache, (m.cache c).onSlab = true)
    (member : v ∈ views) :
    ∀ i, ¬ v.Taken i := by
  intro i taken
  obtain ⟨ofRecords, w, other, offSlab⟩ :=
    sound.ofRecords_of_taken member taken
  have le : v.cache ≤ slabInfoCache := by
    rcases ofRecords with isInfo | isBufctl
    · exact isInfo.le
    · rw [isBufctl]
      decide
  exact Bool.false_ne_true
    (offSlab.symm.trans (small w.cache ((largest w other).trans le)))

/-- A cache whose objects are all free has no slab in use. -/
theorem Sound.que_of_allFree
    (sound : Sound m [] views loose extra)
    (allFree : ∀ v ∈ views, v.cache = c → ∀ i, ¬ v.Taken i) :
    ∀ queue, queue ≠ .onFree → (m.state c).que queue = [] := by
  intro queue busy
  refine List.eq_nil_iff_forall_not_mem.mpr fun h linked => ?_
  obtain ⟨v, member, isCache, isOn, _⟩ :=
    (sound.queued c).mem_que.mp linked
  have isFree := (sound.placed.fits v member).queue_of_allFree
    (sound.prepared.laid v.cache) (allFree v member isCache)
  exact busy (isOn.symm.trans isFree)

/-- A cache whose objects are all free is not busy. -/
theorem Sound.not_busy
    (sound : Sound m [] views loose extra)
    (allFree : ∀ v ∈ views, v.cache = c → ∀ i, ¬ v.Taken i) :
    (m.state c).isBusy = false := by
  have empty := sound.que_of_allFree allFree
  have isPartial : (m.state c).partialQue = [] := empty .onPartial (by decide)
  have isFull : (m.state c).fullQue = [] := empty .onFull (by decide)
  rw [CacheState.isBusy, isPartial, isFull]
  rfl

/-- The loop of `slab_finalize_preallocate_cahches`. -/
theorem Sound.finalizeLoop_spec
    (i : Nat)
    (sound : Sound m [] views [] [])
    (below : ∀ v ∈ views, v.cache < i)
    (small : ∀ c ≤ slabInfoCache, (m.cache c).onSlab = true) :
    ∃ after, m.finalizeLoop i = some after ∧ Sound after [] [] [] [] ∧
      after.cache = m.cache := by
  induction i generalizing m views with
  | zero =>
      have none : views = [] :=
        List.eq_nil_iff_forall_not_mem.mpr fun v member =>
          absurd (below v member) (Nat.not_lt_zero _)
      exact ⟨m, rfl, none ▸ sound, rfl⟩
  | succ i inductionHypothesis =>
      have idle : (m.state i).isBusy = false := by
        refine sound.not_busy fun v member isCache => ?_
        refine sound.allFree_of_largest (fun w other => ?_) small member
        exact isCache ▸ Nat.le_of_lt_succ (below w other)
      obtain ⟨middle, views', destroyed, done, confined, none⟩ :=
        sound.slabKmemCacheDestroy_spec i
      have below' : ∀ v ∈ views', v.cache < i := by
        intro v member
        have other := none idle v member
        by_cases change : Using m.cache i v.cache
        · obtain ⟨ofRecords, offSlab⟩ := change.resolve_left other
          -- only large caches have their records in others
          have large : slabInfoCache < i := by
            by_contra le
            exact Bool.false_ne_true
              (offSlab.symm.trans (small i (Nat.not_lt.mp le)))
          rcases ofRecords with isInfo | isBufctl
          · exact isInfo ▸ large
          · rw [isBufctl]
            exact lt_trans (by decide) large
        · exact lt_of_le_of_ne (Nat.le_of_lt_succ
            (below v ((confined.slabs v change).mp member))) other
      obtain ⟨after, finalized, empty, cache⟩ :=
        inductionHypothesis done below' (confined.cache ▸ small)
      refine ⟨after, ?_, empty, cache.trans confined.cache⟩
      rw [Memory.finalizeLoop, destroyed]
      exact finalized

end RiscvWorkshop.PageSlab
