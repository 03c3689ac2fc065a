import Mathlib
import RiscvWorkshop.Run
import RiscvWorkshop.SlabGrow

namespace RiscvWorkshop.PageSlab

open Pfdb
open Kmem

/-!
# Steps of the callers

Every step keeps the slabs sound, with the objects that callers have as the
loose ones.  An object that a step is not about stays with its caller, and so
does what is in it.
-/

/-! ## The preallocated caches -/

section Created

variable {dcache : Dcache}
variable {cache : Nat → KmemCache}

/-- A cache of small objects without flags keeps its records among the objects. -/
theorem create_small
    {args : CacheArgs}
    {made : KmemCache}
    (unaligned : args.align = 0 ∧ args.alignHw = false)
    (uncolored : args.coloring = false)
    (small : args.size < pageSize / kmSlabTypeDivisor)
    (created : slabKmemCacheCreate dcache args = .ok made) :
    made.onSlab = true ∧ made.align = 0 ∧ made.payloadSize = args.size := by
  have aligned : alignedSize args.size 0 = args.size := if_neg (lt_irrefl 0)
  simp only [slabKmemCacheCreate, calcSlabSize, unaligned, uncolored,
    Nat.zero_mod, Nat.zero_ne_one, if_false, Bool.false_eq_true,
    not_false_eq_true, true_and, aligned, if_pos small, Except.ok.injEq]
    at created
  rw [← created]
  exact ⟨rfl, rfl, rfl⟩

/-- Small preallocated caches keep their records among the objects. -/
theorem Created.small
    (created : Created dcache cache)
    {c : Nat}
    (le : c ≤ slabInfoCache) :
    (cache c).onSlab = true ∧ (cache c).align = 0 ∧
      (cache c).payloadSize = slabPreallocBase <<< c := by
  have less : c < slabPreallocCacheNr := lt_of_le_of_lt le (by decide)
  refine create_small ⟨rfl, rfl⟩ rfl ?_ (created.prealloc c less)
  have bound : slabPreallocBase <<< c ≤ slabPreallocBase <<< slabInfoCache := by
    rw [Nat.shiftLeft_eq, Nat.shiftLeft_eq]
    exact Nat.mul_le_mul_left _ (Nat.pow_le_pow_right (by decide) le)
  exact lt_of_le_of_lt bound (by decide)

/-- The caches are prepared if their objects are inside. -/
theorem Created.prepared
    (created : Created dcache cache)
    (inside : ∀ c, (cache c).ObjectsInside) :
    Prepared cache where
  laid := by
    intro c
    by_cases less : c < slabPreallocCacheNr
    · exact laid_of_create (created.prealloc c less) (inside c)
    · obtain ⟨args, made⟩ := created.others c (Nat.not_lt.mp less)
      exact laid_of_create made (inside c)
  slabInfo := by
    obtain ⟨onSlab, unaligned, payload⟩ := created.small le_rfl
    exact ⟨onSlab, unaligned, payload ▸ by decide⟩
  bufctl := by
    obtain ⟨onSlab, unaligned, payload⟩ :=
      created.small (c := bufctlCache) (by decide)
    exact ⟨onSlab, unaligned, payload ▸ by decide⟩

end Created

/-! ## One step -/

variable {m after : Memory}
variable {views : List SlabView}
variable {loose : List Nat}
variable {extra : List SlabPages}
variable {c obj : Nat}

/-- `slab_kmem_cache_alloc`. -/
theorem Sound.slabKmemCacheAlloc_spec
    {clear : Bool}
    {result : Except Errno Nat}
    (sound : Sound m [] views loose extra)
    (allocated :
      Memory.slabKmemCacheAlloc clear kmallocDepth m c = some (result, after)) :
    Allocated m after c views loose extra result := by
  cases onSlab : (m.cache c).onSlab with
  | true => exact sound.slabKmemCacheAlloc_onSlab onSlab allocated
  | false =>
      refine sound.allocWith_spec (fun grown => ?_) allocated
      exact sound.grow_offSlab (kmallocs_kmallocWith clear 0) onSlab grown

/-- The cache of an object is found through its page. -/
theorem Placed.cacheOf_eq
    (placed : Placed m.cache m.heap views loose extra)
    (prepared : Prepared m.cache)
    (given : ObjOf m.cache views c obj) :
    m.cacheOf obj = some c := by
  obtain ⟨v, member, rfl, i, taken, rfl⟩ := given
  have holds := placed.holds_objAt prepared member taken.1
  rw [Memory.cacheOf, placed.clusterOf_eq member holds]
  dsimp only [SlabView.pages]
  rw [(placed.fits v member).header]
  rfl

/-- An object that a caller has is of some cache. -/
theorem Placed.objOf_of_loose
    {cache : Nat → KmemCache}
    {heap : Heap}
    (placed : Placed cache heap views loose extra)
    (isLoose : obj ∈ loose) :
    ∃ c, ObjOf cache views c obj := by
  obtain ⟨v, member, i, taken, isObj, _⟩ :=
    placed.place_of_covered (List.mem_append_left _ isLoose)
  exact ⟨v.cache, v, member, rfl, i, taken, isObj⟩

/-- A step is about an object if its owner frees it or writes to it. -/
def Action.IsAbout (obj : Nat) : Action → Prop
  | .free other => other = obj
  | .write other _ => other = obj
  | _ => False

/-- What a step leaves to the caller of an object. -/
structure Kept
    (m after : Memory)
    (views views' : List SlabView)
    (obj : Nat) : Prop where
  held : obj ∈ after.held
  objs : ∀ c, ObjOf m.cache views c obj → ObjOf after.cache views' c obj
  contents : ∀ c, ObjOf m.cache views c obj → ∀ a, obj ≤ a →
    a < obj + (m.cache c).payloadSize → after.heap.word a = m.heap.word a

/-- What a call leaves to the caller of an object that it is not about. -/
theorem Confined.kept
    {changes : Nat → Prop}
    {views' : List SlabView}
    (confined : Confined changes m after views views' loose extra)
    (isLoose : obj ∈ loose)
    (held : obj ∈ after.held) :
    Kept m after views views' obj where
  held := held
  objs := by
    rw [confined.cache]
    exact fun c => confined.objs c obj isLoose
  contents := fun c => confined.contents c obj isLoose

/-- One step keeps the slabs sound, and objects that it is not about. -/
theorem Sound.next
    {action : Action}
    (sound : Sound m [] views m.held [])
    (step : m.next action = some after) :
    ∃ views', Sound after [] views' after.held [] ∧
      after.cache = m.cache ∧
      ∀ obj ∈ m.held, ¬ action.IsAbout obj → Kept m after views views' obj := by
  cases action with
  | alloc c clear supply =>
      have supplied : Sound { m with supply } [] views m.held [] :=
        ⟨sound.prepared, sound.placed, sound.queued⟩
      rw [Memory.next] at step
      split at step
      · cases step
      · next e middle failed =>
        obtain rfl := Option.some.inj step
        obtain ⟨views', ⟨_, done, confined⟩ | ⟨_, found, _⟩⟩ :=
          supplied.slabKmemCacheAlloc_spec failed
        · have held : middle.held = m.held := confined.held
          refine ⟨views', ⟨done.prepared, held ▸ done.placed, done.queued⟩,
            confined.cache, fun obj isHeld _ => ?_⟩
          have kept := confined.kept isHeld (held ▸ isHeld)
          exact ⟨kept.held, kept.objs, kept.contents⟩
        · cases found
      · next obj middle made =>
        obtain rfl := Option.some.inj step
        obtain ⟨views', ⟨none, _⟩ | ⟨_, found, given, done, confined⟩⟩ :=
          supplied.slabKmemCacheAlloc_spec made
        · cases none
        · obtain rfl := Except.ok.inj found
          have held : middle.held = m.held := confined.held
          refine ⟨views', ⟨done.prepared, held ▸ done.placed, done.queued⟩,
            confined.cache, fun obj isHeld _ => ?_⟩
          have kept := confined.kept isHeld (held ▸ isHeld)
          exact ⟨List.mem_cons_of_mem _ kept.held, kept.objs, kept.contents⟩
  | free obj =>
      rw [Memory.next] at step
      split_ifs at step with isHeld
      obtain ⟨middle, freed, rfl⟩ := Option.map_eq_some_iff.mp step
      obtain ⟨c, given⟩ := sound.placed.objOf_of_loose isHeld
      have taken := sound.perm_loose (List.perm_cons_erase isHeld) (.refl [])
      obtain ⟨middle, views', freed', done, _, confined⟩ :=
        taken.slabKmemCacheFree_spec given
      obtain rfl := Option.some.inj (freed'.symm.trans freed)
      have held : middle.held = m.held := confined.held
      refine ⟨views', ⟨done.prepared, held ▸ done.placed, done.queued⟩,
        confined.cache, fun other isHeld' notAbout => ?_⟩
      have isLoose : other ∈ m.held.erase obj :=
        (List.mem_erase_of_ne (Ne.symm notAbout)).mpr isHeld'
      have kept := confined.kept isLoose (held ▸ isHeld')
      exact ⟨held ▸ isLoose, kept.objs, kept.contents⟩
  | reap c force =>
      obtain ⟨after, views', reaped, done, _, confined⟩ :=
        sound.slabKmemCacheReap_spec c force
      obtain rfl := Option.some.inj (reaped.symm.trans step)
      have held : after.held = m.held := confined.held
      refine ⟨views', held ▸ done, confined.cache, fun obj isHeld _ => ?_⟩
      exact confined.kept isHeld (held ▸ isHeld)
  | write obj content =>
      rw [Memory.next] at step
      split_ifs at step with isHeld
      obtain ⟨c, given⟩ := sound.placed.objOf_of_loose isHeld
      have isCache := sound.placed.cacheOf_eq sound.prepared given
      rw [isCache] at step
      obtain rfl := Option.some.inj step
      have taken := sound.perm_loose (List.perm_cons_erase isHeld) (.refl [])
      have wrote :=
        Sound.write_spec [obj] []
          (m.heap.fill obj (m.cache c).payloadSize content) taken ?_
          (fun h written => absurd rfl written) rfl rfl
      · obtain ⟨done, confined⟩ := wrote
        refine ⟨views, done.perm_loose (List.perm_cons_erase isHeld).symm
          (.refl []), rfl, fun other isHeld' notAbout => ?_⟩
        exact confined.kept ((List.mem_erase_of_ne (Ne.symm notAbout)).mpr isHeld')
          isHeld'
      · intro a written
        refine .inl ⟨c, obj, List.mem_singleton_self obj, given, ?_⟩
        by_contra outside
        exact written (if_neg outside)

end RiscvWorkshop.PageSlab
