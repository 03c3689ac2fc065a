import Mathlib
import RiscvWorkshop.SlabMake
import RiscvWorkshop.SlabReap

namespace RiscvWorkshop.PageSlab

open Pfdb
open Kmem

/-!
# Allocating objects

An object is taken from a slab on the partial queue, from a slab of the free
queue, or from a slab that is made for it.  Slabs with their records elsewhere
allocate these from caches that keep theirs among the objects.
-/

/-- What `slab_kmem_cache_grow` leaves: an idle slab, or nothing of what it got. -/
def Grown
    (m after : Memory)
    (c : Nat)
    (views : List SlabView)
    (loose : List Nat)
    (extra : List SlabPages)
    (result : Except Errno Nat) : Prop :=
  ∃ views', Confined (Releasing m.cache c) m after views views' loose extra ∧
    (result = .error .enomem ∧ Sound after [] views' loose extra ∨
      ∃ v, result = .ok v.header ∧ v.cache = c ∧ (∀ i, ¬ v.Taken i) ∧
        Sound after [v] views' loose extra)

/-- What `slab_kmem_cache_alloc` leaves: an object for the caller, or nothing. -/
def Allocated
    (m after : Memory)
    (c : Nat)
    (views : List SlabView)
    (loose : List Nat)
    (extra : List SlabPages)
    (result : Except Errno Nat) : Prop :=
  ∃ views',
    result = .error .enomem ∧ Sound after [] views' loose extra ∧
        Confined (Releasing m.cache c) m after views views' loose extra ∨
      ∃ obj, result = .ok obj ∧ ObjOf after.cache views' c obj ∧
        Sound after [] views' (obj :: loose) extra ∧
        Confined (Using m.cache c) m after views views' loose extra

section Alloc

variable {m after : Memory}
variable {views : List SlabView}
variable {loose : List Nat}
variable {extra : List SlabPages}
variable {v : SlabView}
variable {c obj : Nat}
variable {clear : Bool}

/-- A slab that is not full has a first free object. -/
theorem SlabView.exists_top
    (notFull : v.queue ≠ .onFull) :
    ∃ i frees, v.frees = i :: frees := by
  refine List.exists_cons_of_ne_nil fun none => notFull ?_
  rw [SlabView.queue, if_pos none]

/-- An object is taken from the first slab of the partial queue. -/
theorem Sound.allocFrom_partial
    (sound : Sound m [] (v :: views) loose extra)
    (isPartial : v.queue = .onPartial)
    (result : m.allocFrom v.cache v.header clear = some (obj, after)) :
    ObjOf m.cache (v.take :: views) v.cache obj ∧
      Sound after [] (v.take :: views) (obj :: loose) extra ∧
      Confined (· = v.cache) m after (v :: views) (v.take :: views) loose
        extra := by
  obtain ⟨prepared, placed, queued⟩ := sound
  obtain ⟨i, frees, top⟩ := v.exists_top (by rw [isPartial]; exact nofun)
  refine (placed.allocFrom_spec prepared ((queued v.cache).onPartial isPartial)
    (fun d other => ?_) top result).2
  exact (queued d).of_cons_other (Ne.symm other)

/-- An object is taken from a slab that was idle. -/
theorem Sound.allocQueued_spec
    (sound : Sound m [v] views loose extra)
    (allFree : ∀ i, ¬ v.Taken i)
    (result :
      (m.setState v.cache
          { m.state v.cache with
            slabCount := (m.state v.cache).slabCount + 1 }).allocQueued
        v.cache v.header clear = some (obj, after)) :
    ObjOf m.cache (v.take :: views) v.cache obj ∧
      Sound after [] (v.take :: views) (obj :: loose) extra ∧
      Confined (· = v.cache) m after (v :: views) (v.take :: views) loose
        extra := by
  obtain ⟨prepared, placed, queued⟩ := sound
  have fits := placed.fits v List.mem_cons_self
  have isFree := fits.queue_of_allFree (prepared.laid v.cache) allFree
  obtain ⟨i, frees, top⟩ := v.exists_top (by rw [isFree]; exact nofun)
  have onPartial := (queued v.cache).addPartial
  have state : ∀ other : CacheState,
      (m.setState v.cache other).state v.cache = other :=
    fun _ => Function.update_self ..
  rw [Memory.allocQueued, state] at result
  dsimp only at result
  split at result
  · cases result
  · generalize set : Memory.setState _ v.cache _ = middle at result
    have isSet : middle = m.setState v.cache
        { m.state v.cache with
          slabCount := (m.state v.cache).slabCount + 1
          partialQue := (m.state v.cache).partialQue ++ [v.header] } := by
      rw [← set, Memory.setState, Memory.setState_state, Function.update_idem]
      rfl
    clear set
    subst isSet
    have others : ∀ d, d ≠ v.cache → Queued (m.cache d) d
        ((m.setState v.cache
          { m.state v.cache with
            slabCount := (m.state v.cache).slabCount + 1
            partialQue := (m.state v.cache).partialQue ++ [v.header] }).state d)
        views := by
      intro d other
      rw [Memory.setState_state, Function.update_of_ne other]
      exact queued d
    have first : Confined (· = v.cache) m
        (m.setState v.cache
          { m.state v.cache with
            slabCount := (m.state v.cache).slabCount + 1
            partialQue := (m.state v.cache).partialQue ++ [v.header] })
        (v :: views) (v :: views) loose extra :=
      .setState (by rfl) _
    obtain ⟨_, given, sound, confined⟩ :=
      Placed.allocFrom_spec (m := m.setState v.cache _) placed prepared
        ((state _).symm ▸ onPartial) others top result
    exact ⟨given, sound, first.trans confined⟩

/-- The first slab of the free queue becomes idle. -/
theorem Sound.idle_top
    (sound : Sound m [] (v :: views) loose extra)
    (isFree : v.queue = .onFree)
    (top : (m.state v.cache).freeQue =
      v.header :: (m.state v.cache).freeQue.tail) :
    Sound (m.setState v.cache (m.state v.cache).freeTop) [v] views loose
      extra := by
  obtain ⟨prepared, placed, queued⟩ := id sound
  rw [List.nil_append] at placed
  have once := (List.nodup_cons.mp placed.headers).1
  refine ⟨prepared, placed, ?_⟩
  refine sound.queued_setState ((queued v.cache).freeTop rfl isFree once top)
    fun d other before => ?_
  exact before.of_cons_other (Ne.symm other)

/-- An object is taken from the first slab of the free queue. -/
theorem Sound.allocQueued_free
    {rest : List Nat}
    (sound : Sound m [] (v :: views) loose extra)
    (isFree : v.queue = .onFree)
    (top : (m.state v.cache).freeQue = v.header :: rest)
    (result :
      (m.setState v.cache
          { m.state v.cache with freeQue := rest }).allocQueued
        v.cache v.header clear = some (obj, after)) :
    ObjOf m.cache (v.take :: views) v.cache obj ∧
      Sound after [] (v.take :: views) (obj :: loose) extra ∧
      Confined (· = v.cache) m after (v :: views) (v.take :: views) loose
        extra := by
  have isTop : (m.state v.cache).freeQue =
      v.header :: (m.state v.cache).freeQue.tail := by
    rw [top, List.tail_cons]
  have positive : 0 < (m.state v.cache).slabCount := by
    rw [(sound.queued v.cache).counted, List.countP_cons_of_pos (by simp)]
    exact Nat.succ_pos _
  -- the slab leaves the queue, and is counted again when it is used
  have same : m.setState v.cache { m.state v.cache with freeQue := rest } =
      (m.setState v.cache (m.state v.cache).freeTop).setState v.cache
        { (m.setState v.cache (m.state v.cache).freeTop).state v.cache with
          slabCount :=
            ((m.setState v.cache (m.state v.cache).freeTop).state
              v.cache).slabCount + 1 } := by
    rw [Memory.setState_state, Function.update_self, Memory.setState,
      Memory.setState, Memory.setState, Function.update_idem,
      CacheState.freeTop, top, List.tail_cons]
    dsimp only
    rw [Nat.sub_add_cancel positive]
  rw [same] at result
  have allFree :=
    (sound.placed.fits v List.mem_cons_self).allFree isFree
  obtain ⟨given, done, confined⟩ :=
    (sound.idle_top isFree isTop).allocQueued_spec allFree result
  have first : Confined (· = v.cache) m
      (m.setState v.cache (m.state v.cache).freeTop) (v :: views) (v :: views)
      loose extra :=
    .setState (by rfl) _
  exact ⟨given, done, first.trans confined⟩

/-- `slab_kmem_cache_alloc`, by what `slab_kmem_cache_grow` leaves. -/
theorem Sound.allocWith_spec
    {kmalloc : Memory → Nat → Option (Nat × Memory)}
    {result : Except Errno Nat}
    (sound : Sound m [] views loose extra)
    (grows : ∀ {grown middle},
      m.slabKmemCacheGrow kmalloc c = some (grown, middle) →
        Grown m middle c views loose extra grown)
    (allocated : m.allocWith kmalloc c clear = some (result, after)) :
    Allocated m after c views loose extra result := by
  rw [Memory.allocWith] at allocated
  dsimp only at allocated
  split at allocated
  · next h tail isPartial =>
    obtain ⟨⟨obj, after⟩, took, both⟩ := Option.map_eq_some_iff.mp allocated
    obtain ⟨rfl, rfl⟩ := Prod.mk.inj both
    have linked : h ∈ (m.state c).que .onPartial := by
      rw [CacheState.que, isPartial]
      exact List.mem_cons_self
    obtain ⟨v, member, rfl, isOn, rfl⟩ := (sound.queued c).mem_que.mp linked
    obtain ⟨rest, same, sound⟩ := sound.first member
    obtain ⟨given, done, confined⟩ := sound.allocFrom_partial isOn took
    refine ⟨v.take :: rest, .inr ⟨obj, rfl, ?_, done, ?_⟩⟩
    · exact confined.cache ▸ given
    · exact (confined.perm same.symm).mono (fun _ => .inl) (fun _ => id)
        fun _ => id
  · next h rest _ top =>
    obtain ⟨⟨obj, after⟩, took, both⟩ := Option.map_eq_some_iff.mp allocated
    obtain ⟨rfl, rfl⟩ := Prod.mk.inj both
    obtain ⟨v, others, same, rfl, rfl, isFree, sound⟩ := sound.free_top top
    obtain ⟨given, done, confined⟩ := sound.allocQueued_free isFree top took
    refine ⟨v.take :: others, .inr ⟨obj, rfl, ?_, done, ?_⟩⟩
    · exact confined.cache ▸ given
    · exact (confined.perm same.symm).mono (fun _ => .inl) (fun _ => id)
        fun _ => id
  · split at allocated
    · cases allocated
    · next e middle failed =>
      obtain ⟨rfl, rfl⟩ := Prod.mk.inj (Option.some.inj allocated)
      obtain ⟨views', confined, ⟨isError, done⟩ | ⟨v, found, _⟩⟩ :=
        grows failed
      · exact ⟨views', .inl ⟨isError, done, confined⟩⟩
      · cases found
    · next h middle made =>
      obtain ⟨⟨obj, after⟩, took, both⟩ := Option.map_eq_some_iff.mp allocated
      obtain ⟨rfl, rfl⟩ := Prod.mk.inj both
      obtain ⟨views', confined, ⟨none, _⟩ | ⟨v, found, isCache, allFree, idle⟩⟩ :=
        grows made
      · cases none
      · obtain rfl := Except.ok.inj found
        subst isCache
        obtain ⟨given, done, confined'⟩ := idle.allocQueued_spec allFree took
        refine ⟨v.take :: views', .inr ⟨obj, rfl, ?_, done, ?_⟩⟩
        · exact confined'.cache ▸ given
        · exact (confined.mono (fun _ => .inr) (fun _ => id) fun _ => id).trans
            ((Confined.cons (.inl rfl)).trans (confined'.mono (fun _ => .inl)
              (fun _ => id) fun _ => id))

end Alloc

end RiscvWorkshop.PageSlab
