import Mathlib
import RiscvWorkshop.SlabRight

namespace RiscvWorkshop.PageSlab

open Pfdb
open Kmem

/-!
# Runs of the callers

Callers allocate, free, write and shrink in any order, from any number of caches
and with any answers of the page pool.
-/

/-! ## Preallocated caches and one of a user -/

/-- Data caches with eight colors. -/
def plainDcache : Dcache where
  linesize := 64
  colorNum := 8
  size := 4096
  wholeWords := by decide
  hasColors := by decide

/-- A cache may do without an alignment. -/
theorem noAlign : 0 = 0 ∨ ∃ shift < 64, 0 = 2 ^ shift :=
  .inl rfl

/-- Objects of which five are in a slab of four pages. -/
def userArgs : CacheArgs where
  size := 3000
  align := 0
  limits := 0
  alignHw := false
  coloring := false
  constructor := none
  destructor := none
  isSize := by decide
  isAlign := noAlign

/-- The preallocated caches, and one for users under all other numbers. -/
def plainArgs (c : Nat) : CacheArgs :=
  if less : c < slabPreallocCacheNr then preallocArgs c less else userArgs

/-- The caches that are created so. -/
def plainCache (c : Nat) : KmemCache :=
  match slabKmemCacheCreate plainDcache (plainArgs c) with
  | .ok cache => cache
  | .error _ =>
      { payloadSize := 0
        objSize := 0
        order := 0
        align := 0
        colorOffset := 0
        colorNum := 0
        limits := 0
        objsPerSlab := 0
        onSlab := true
        coloring := false
        constructor := none
        destructor := none }

instance (cache : KmemCache) : Decidable cache.ObjectsInside :=
  inferInstanceAs (Decidable (if cache.onSlab then _ else ∀ _ < _, _ ∧ _))

/-- Every cache is one of the first fifteen. -/
theorem plainArgs_eq (c : Nat) :
    ∃ i ≤ slabPreallocCacheNr, plainArgs c = plainArgs i ∧
      plainCache c = plainCache i := by
  by_cases less : c < slabPreallocCacheNr
  · exact ⟨c, less.le, rfl, rfl⟩
  · have same : plainArgs c = plainArgs slabPreallocCacheNr := by
      rw [plainArgs, dif_neg less]
      rfl
    exact ⟨_, le_rfl, same, by rw [plainCache, same]; rfl⟩

/-- All of them are created. -/
theorem plain_ok (c : Nat) :
    slabKmemCacheCreate plainDcache (plainArgs c) = .ok (plainCache c) := by
  have ok : ∀ i ≤ slabPreallocCacheNr,
      (slabKmemCacheCreate plainDcache (plainArgs i)).isOk = true := by
    decide +kernel
  obtain ⟨i, le, same, alike⟩ := plainArgs_eq c
  have made := ok i le
  rw [same, alike, plainCache]
  split
  · next made => exact made
  · next failed =>
    rw [failed] at made
    cases made

/-- The plain caches are created. -/
theorem plain_created : Created plainDcache plainCache where
  prealloc := by
    intro c less
    have made := plain_ok c
    rw [plainArgs, dif_pos less] at made
    exact made
  others := fun c _ => ⟨plainArgs c, plain_ok c⟩

/-- The objects of the plain caches are inside. -/
theorem plain_inside (c : Nat) : (plainCache c).ObjectsInside := by
  have inside : ∀ i ≤ slabPreallocCacheNr, (plainCache i).ObjectsInside := by
    decide +kernel
  obtain ⟨i, le, _, alike⟩ := plainArgs_eq c
  exact alike ▸ inside i le

/-- A user allocates two objects, and writes to the second one. -/
def twoObjects : List Action :=
  [.alloc slabPreallocCacheNr true [some 0x10000, some 0x20000, some 0x21000],
    .alloc slabPreallocCacheNr false [],
    .write 74568 fun a => a]

/-- What is there before any allocation. -/
def plainMemory : Memory :=
  emptyMemory plainDcache plainCache fun _ => 0

/-- What the user has left then. -/
def afterTwoObjects : Memory :=
  (execute Memory.next plainMemory twoObjects).get (by decide +kernel)

/-- This is a run. -/
theorem run_twoObjects :
    Run (StepOf Memory.next) plainMemory twoObjects afterTwoObjects :=
  .of_execute (Option.some_get _).symm

section Runs

variable {dcache : Dcache}
variable {cache : Nat → KmemCache}
variable {word : Nat → Nat}
variable {actions more : List Action}
variable {m after : Memory}
variable {obj c : Nat}

/-- Nothing is in the empty memory. -/
theorem sound_emptyMemory
    (prepared : Prepared cache)
    (dcache : Dcache)
    (word : Nat → Nat) :
    Sound (emptyMemory dcache cache word) [] [] [] [] where
  prepared := prepared
  placed :=
    { fits := nofun
      pages := .refl []
      apart := .nil
      headers := .nil
      live := fun x => ⟨nofun, nofun⟩
      once := .nil
      owners := .nil
      covers := fun x => Iff.rfl
      kept := nofun }
  queued := fun c => ⟨fun queue => by cases queue <;> exact .refl [], rfl,
    (prepared.laid c).colors⟩

/-- Every run keeps the slabs sound. -/
theorem sound_of_run
    (created : Created dcache cache)
    (inside : ∀ c, (cache c).ObjectsInside)
    (run : Run (StepOf Memory.next) (emptyMemory dcache cache word) actions m) :
    m.cache = cache ∧ ∃ views, Sound m [] views m.held [] := by
  induction run with
  | nil =>
      exact ⟨rfl, [], sound_emptyMemory (created.prepared inside) dcache word⟩
  | snoc _ last inductionHypothesis =>
      obtain ⟨same, views, sound⟩ := inductionHypothesis
      obtain ⟨views', done, isCache, _⟩ := sound.next last
      exact ⟨isCache.trans same, views', done⟩

/-- What one step keeps of an object, a run of such steps keeps. -/
theorem Sound.kept_of_run
    {views : List SlabView}
    (sound : Sound m [] views m.held [])
    (isHeld : obj ∈ m.held)
    (given : ObjOf m.cache views c obj)
    (later : Run (StepOf Memory.next) m more after)
    (others : ∀ action ∈ more, ¬ action.IsAbout obj) :
    ∃ views', Sound after [] views' after.held [] ∧ obj ∈ after.held ∧
      after.cache = m.cache ∧ ObjOf after.cache views' c obj ∧
      ∀ a, obj ≤ a → a < obj + (m.cache c).payloadSize →
        after.heap.word a = m.heap.word a := by
  induction later with
  | nil =>
      exact ⟨views, sound, isHeld, rfl, given, fun _ _ _ => rfl⟩
  | @snoc actions action middle final _ last inductionHypothesis =>
      obtain ⟨views₁, sound₁, isHeld₁, cache₁, given₁, same₁⟩ :=
        inductionHypothesis fun action member =>
          others action (List.mem_append_left _ member)
      obtain ⟨views₂, sound₂, cache₂, kept⟩ := sound₁.next last
      obtain ⟨isHeld₂, objs, contents⟩ := kept obj isHeld₁
        (others action (List.mem_append_right _ (List.mem_singleton_self _)))
      refine ⟨views₂, sound₂, isHeld₂, cache₂.trans cache₁, objs c given₁,
        fun a above below => ?_⟩
      refine (contents c given₁ a above ?_).trans (same₁ a above below)
      rw [cache₁]
      exact below

/-- The second object comes and goes. -/
def secondComesAndGoes : List Action :=
  [.free 74568, .alloc slabPreallocCacheNr true [], .free 74568,
    .reap slabInfoCache true]

/-- What a free leaves: the record of the object is the first free one again. -/
structure Recovered
    (m after : Memory)
    (obj : Nat)
    (x : Given)
    (pages : SlabPages)
    (sinfo : Slab) : Prop where
  live : x ∈ m.heap.live
  isObj : x.obj = obj
  cluster : m.heap.clusterOf obj = some pages
  header : m.heap.slabs pages.slabp = some sinfo
  record : x.bufctl ∈ sinfo.records
  first : after.heap.slabs pages.slabp =
    some { sinfo with objects := x.bufctl, count := sinfo.count - 1 }
  link : after.heap.word x.bufctl = sinfo.objects
  held : after.held = m.held.erase obj
  given : after.heap.live = m.heap.live.filter fun other => other.obj ≠ obj

/-- What `slab_kmem_cache_reap` leaves of a cache and of the others. -/
structure Shrunk
    (force : Bool)
    (m after : Memory)
    (c : Nat) : Prop where
  reaped : Reaped force (m.cache c) (m.state c) (after.state c)
  right : SlabsRight after
  held : after.held = m.held
  kept : ∀ obj ∈ m.held, ∀ a, m.Content obj a →
    after.heap.word a = m.heap.word a
  others : ∀ d, ¬ Using m.cache c d →
    (after.state d).slabCount = (m.state d).slabCount ∧
      ∀ queue, (after.state d).que queue = (m.state d).que queue
  idle : force = true → (∀ x ∈ m.heap.live, m.cacheOf x.obj ≠ some c) →
    after.clustersOf c = []

/-- Objects that a caller has keep their contents in a call. -/
theorem Confined.content
    {changes : Nat → Prop}
    {views views' : List SlabView}
    {loose : List Nat}
    {extra : List SlabPages}
    {a : Nat}
    (confined : Confined changes m after views views' loose extra)
    (placed : Placed m.cache m.heap views loose extra)
    (prepared : Prepared m.cache)
    (isLoose : obj ∈ loose)
    (content : m.Content obj a) :
    after.heap.word a = m.heap.word a := by
  obtain ⟨d, given⟩ := placed.objOf_of_loose isLoose
  obtain ⟨c, isCache, above, below⟩ := content
  obtain rfl := Option.some.inj
    ((placed.cacheOf_eq prepared given).symm.trans isCache)
  exact confined.contents _ obj isLoose given a above below

/-- What an allocation leaves that could not get all of its memory. -/
structure Unchanged (m after : Memory) (c : Nat) : Prop where
  right : SlabsRight after
  held : after.held = m.held
  given : (after.heap.live.map Given.obj).Perm (m.heap.live.map Given.obj)
  kept : ∀ obj ∈ m.held, ∀ a, m.Content obj a →
    after.heap.word a = m.heap.word a
  states : ∀ d, ¬ Releasing m.cache c d →
    (after.state d).slabCount = (m.state d).slabCount ∧
      ∀ queue, (after.state d).que queue = (m.state d).que queue
  clusters : ∀ d, ¬ Releasing m.cache c d →
    (after.clustersOf d).Perm (m.clustersOf d)

/-- The slabs of caches that do not change are the same. -/
theorem Confined.filter_perm
    {changes : Nat → Prop}
    {views views' : List SlabView}
    {loose loose' : List Nat}
    {extra extra' : List SlabPages}
    (confined : Confined changes m after views views' loose extra)
    (placed : Placed m.cache m.heap views loose extra)
    (placed' : Placed after.cache after.heap views' loose' extra')
    {keep : SlabView → Bool}
    (apart : ∀ v, keep v = true → ¬ changes v.cache) :
    (views'.filter keep).Perm (views.filter keep) := by
  refine (List.perm_ext_iff_of_nodup ?_ ?_).mpr fun v => ?_
  · exact (List.Nodup.of_map _ placed'.headers).filter _
  · exact (List.Nodup.of_map _ placed.headers).filter _
  · rw [List.mem_filter, List.mem_filter]
    refine and_congr_left fun kept => ?_
    exact confined.slabs v (apart v kept)

/-- Only slabs with their header elsewhere are made of other objects. -/
theorem flatMap_owned
    {cache : Nat → KmemCache}
    (views : List SlabView) :
    views.flatMap (SlabView.owned cache) =
      (views.filter fun v => !(cache v.cache).onSlab).flatMap
        (SlabView.owned cache) := by
  induction views with
  | nil => rfl
  | cons v views inductionHypothesis =>
      rw [List.flatMap_cons, inductionHypothesis]
      cases onSlab : (cache v.cache).onSlab with
      | true =>
          rw [SlabView.owned_onSlab onSlab, List.nil_append,
            List.filter_cons_of_neg (by rw [onSlab]; decide)]
      | false =>
          rw [List.filter_cons_of_pos (by rw [onSlab]; rfl), List.flatMap_cons]

/-- Destroying the caches of users, in any order. -/
theorem Sound.destroyAll
    {views : List SlabView}
    (cs : List Nat)
    (sound : Sound m [] views [] [])
    (users : ∀ c ∈ cs, slabPreallocCacheNr ≤ c)
    (all : ∀ v ∈ views, v.cache < slabPreallocCacheNr ∨ v.cache ∈ cs) :
    ∃ after views', execute Memory.slabKmemCacheDestroy m cs = some after ∧
      Sound after [] views' [] [] ∧ after.cache = m.cache ∧
      ∀ v ∈ views', v.cache < slabPreallocCacheNr := by
  induction cs generalizing m views with
  | nil =>
      refine ⟨m, views, rfl, sound, rfl, fun v member => ?_⟩
      exact (all v member).resolve_right List.not_mem_nil
  | cons c cs inductionHypothesis =>
      have records : ∀ d, OfRecords d → d < slabPreallocCacheNr := by
        rintro d (rfl | rfl)
        · decide
        · decide
      have large := users c List.mem_cons_self
      have idle : (m.state c).isBusy = false := by
        refine sound.not_busy ?_
        rintro v member rfl i taken
        have small := records _ (sound.ofRecords_of_taken member taken).1
        exact absurd small (Nat.not_lt.mpr large)
      obtain ⟨middle, views₁, destroyed, done, confined, none⟩ :=
        sound.slabKmemCacheDestroy_spec c
      have rest : ∀ v ∈ views₁,
          v.cache < slabPreallocCacheNr ∨ v.cache ∈ cs := by
        intro v member
        by_cases change : Using m.cache c v.cache
        · exact .inl (records _ (change.resolve_left (none idle v member)).1)
        · refine (all v ((confined.slabs v change).mp member)).imp_right ?_
          intro later
          exact (List.mem_cons.mp later).resolve_left (none idle v member)
      obtain ⟨after, views', executed, done', isCache, small⟩ :=
        inductionHypothesis done
          (fun d member => users d (List.mem_cons_of_mem c member)) rest
      refine ⟨after, views', ?_, done', isCache.trans confined.cache, small⟩
      rw [execute, destroyed]
      exact executed

/-- The user frees both objects. -/
def bothFreed : List Action :=
  twoObjects ++ [.free 77576, .free 74568]

end Runs

end RiscvWorkshop.PageSlab
