import Mathlib
import RiscvWorkshop.PageCacheThreads

namespace RiscvWorkshop.PageCache

/-!
# Which thread keeps each page

`CacheSound` is what the pool and the threads keep as long as no thread shrinks
the cache for writing only, and no waiter is there when the shrinker looks for
one or drops the last reference.  It says which thread keeps each page, and with
how many references.  A step changes one page at most, and the threads that it
concerns; the lemmas below say what has to be shown of such a change.
-/

/-- The places of a call that writes only, and those behind a page given up. -/
def Place.astray : Place → Bool
  | .shrinking _ _ vars => vars.wbonly
  | .shrinkAgain vars => vars.wbonly
  | .shrinkUnlocked _ => true
  | _ => false

/-- What holds of the pages and the threads between two steps. -/
structure CacheSound (sys : CacheSystem) : Prop where
  pool : PoolSound sys.pool
  treeNodup : sys.pool.tree.Nodup
  present :
    ∀ frame ∈ sys.pool.tree, ∃ pc, sys.pool.pages frame = some pc
  unique :
    ∀ frame other pc pc',
      sys.pool.pages frame = some pc → sys.pool.pages other = some pc' →
        pc.key = pc'.key → frame = other
  queued :
    ∀ frame pc,
      sys.pool.pages frame = some pc → pc.busy = none → frame ∈ sys.pool.lru
  kept :
    ∀ t frame refs,
      (sys.agents t).Keeps frame refs ↔
        ∃ pc,
          sys.pool.pages frame = some pc ∧ pc.busy = some t ∧ pc.refs = refs
  once : ∀ t, (sys.agents t).Once
  onWay : ∀ t, (sys.agents t).place.astray = false

/-- Who keeps a page, read off the page. -/
theorem CacheSound.keeps_iff
    {sys : CacheSystem}
    {t frame refs : Nat}
    {pc : PCache}
    (sound : CacheSound sys)
    (page : sys.pool.pages frame = some pc) :
    (sys.agents t).Keeps frame refs ↔ pc.busy = some t ∧ pc.refs = refs := by
  rw [sound.kept]
  constructor
  · rintro ⟨found, same, facts⟩
    rw [page] at same
    cases same
    exact facts
  · exact fun facts => ⟨pc, page, facts⟩

/-- A sound cache has each page in one of the two conditions. -/
theorem CacheSound.pagesRight
    {sys : CacheSystem}
    (sound : CacheSound sys) :
    PagesRight sys where
  conditions := by
    intro frame member
    obtain ⟨pc, page⟩ := sound.present frame member
    refine ⟨pc, page, ?_⟩
    cases busy : pc.busy with
    | none =>
        have queued := sound.queued frame pc page busy
        obtain ⟨found, same, _, refs⟩ := sound.pool.unused frame queued
        rw [page] at same
        cases same
        refine .idle busy ?_ (List.count_eq_one_of_mem sound.pool.nodup queued) refs
        intro u count keeps
        have theirs := ((sound.keeps_iff page).mp keeps).1
        rw [busy] at theirs
        cases theirs
    | some t =>
        refine
          .busy t busy ?_ (sound.once t) (sound.pool.own_notLru page busy)
        intro u
        constructor
        · rintro ⟨count, keeps⟩
          have theirs := ((sound.keeps_iff page).mp keeps).1
          rw [busy] at theirs
          exact (Option.some.inj theirs).symm
        · rintro rfl
          exact ⟨pc.refs, (sound.keeps_iff page).mpr ⟨busy, rfl⟩⟩
  unique := by
    intro frame _ other _ pc pc' page page'
    exact sound.unique frame other pc pc' page page'

/-- Nothing is cached, and nobody keeps anything. -/
theorem emptyCache_sound : CacheSound emptyCache where
  pool := emptyPool_sound
  treeNodup := List.nodup_nil
  present := by
    intro frame member
    cases member
  unique := by
    intro frame other pc pc' page
    cases page
  queued := by
    intro frame pc page
    cases page
  kept := by
    intro t frame refs
    constructor
    · rintro (⟨member, _⟩ | inCall)
      · cases member
      · cases inCall
    · rintro ⟨pc, page, _⟩
      cases page
  once := fun t =>
    { nodup := List.nodup_nil
      apart := by
        intro frame refs _ member
        cases member }
  onWay := fun _ => rfl

/-! ## What a step changes -/

/-- A thread that keeps the same pages as before. -/
structure SameKept (before after : Agent) : Prop where
  held : after.held = before.held
  kept : after.place.kept = before.place.kept
  astray : after.place.astray = before.place.astray

namespace SameKept

variable {before after : Agent}

theorem refl (agent : Agent) : SameKept agent agent where
  held := rfl
  kept := rfl
  astray := rfl

theorem keeps_iff
    {frame refs : Nat}
    (same : SameKept before after) :
    after.Keeps frame refs ↔ before.Keeps frame refs := by
  rw [Agent.Keeps, Agent.Keeps, same.held, same.kept]

theorem once
    (same : SameKept before after)
    (once : before.Once) :
    after.Once where
  nodup := same.held ▸ once.nodup
  apart := by
    rw [same.held, same.kept]
    exact once.apart

end SameKept

/-- A thread that is woken keeps what it kept. -/
theorem Agent.wake_sameKept (agent : Agent) : SameKept agent agent.wake := by
  obtain ⟨place, held⟩ := agent
  cases place with
  | asleep => exact { held := rfl, kept := rfl, astray := rfl }
  | _ => exact SameKept.refl _

/-- One page cache is changed, registered or removed. -/
structure PageChange
    (before after : Pool)
    (frame : Nat)
    (next : Option PCache) : Prop where
  pages : after.pages = Function.update before.pages frame next
  treeNodup : after.tree.Nodup
  others : ∀ other ∈ after.tree, other ≠ frame → other ∈ before.tree
  present : frame ∈ after.tree → ∃ pc, next = some pc
  alone :
    ∀ pc other found,
      next = some pc → other ≠ frame → before.pages other = some found →
        found.key ≠ pc.key
  sound : PoolSound after
  lru : ∀ other ∈ before.lru, other ≠ frame → other ∈ after.lru
  queued : ∀ pc, next = some pc → pc.busy = none → frame ∈ after.lru

section Change

variable {sys after : CacheSystem}
variable {t frame : Nat}
variable {pc : PCache}
variable {next : Option PCache}

namespace PageChange

variable {before after : Pool}

theorem self (change : PageChange before after frame next) :
    after.pages frame = next := by
  rw [change.pages, Function.update_self]

theorem of_ne
    {other : Nat}
    (change : PageChange before after frame next)
    (different : other ≠ frame) :
    after.pages other = before.pages other := by
  rw [change.pages, Function.update_of_ne different]

end PageChange

/-- A page is changed, and each thread keeps it accordingly. -/
theorem CacheSound.change
    (sound : CacheSound sys)
    (change : PageChange sys.pool after.pool frame next)
    (own :
      ∀ u refs,
        (after.agents u).Keeps frame refs ↔
          ∃ pc, next = some pc ∧ pc.busy = some u ∧ pc.refs = refs)
    (rest :
      ∀ u other refs, other ≠ frame →
        ((after.agents u).Keeps other refs ↔ (sys.agents u).Keeps other refs))
    (once : ∀ u, (after.agents u).Once)
    (onWay : ∀ u, (after.agents u).place.astray = false) :
    CacheSound after where
  pool := change.sound
  treeNodup := change.treeNodup
  present := by
    intro other member
    by_cases same : other = frame
    · subst same
      rw [change.self]
      exact change.present member
    · rw [change.of_ne same]
      exact sound.present other (change.others other member same)
  unique := by
    intro first second one two page page' keys
    by_cases isFirst : first = frame
    · subst isFirst
      by_contra different
      rw [change.self] at page
      rw [change.of_ne (Ne.symm different)] at page'
      exact change.alone one second two page (Ne.symm different) page' keys.symm
    · rw [change.of_ne isFirst] at page
      by_cases isSecond : second = frame
      · subst isSecond
        rw [change.self] at page'
        exact absurd keys (change.alone two first one page' isFirst page)
      · rw [change.of_ne isSecond] at page'
        exact sound.unique first second one two page page' keys
  queued := by
    intro other found page idle
    by_cases same : other = frame
    · subst same
      rw [change.self] at page
      exact change.queued found page idle
    · rw [change.of_ne same] at page
      exact change.lru other (sound.queued other found page idle) same
  kept := by
    intro u other refs
    by_cases same : other = frame
    · subst same
      rw [own, change.self]
    · rw [rest u other refs same, change.of_ne same]
      exact sound.kept u other refs
  once := once
  onWay := onWay

/-- Threads come to other places, and the pool is as it was. -/
theorem CacheSound.move
    (sound : CacheSound sys)
    (pool : after.pool = sys.pool)
    (keeps :
      ∀ u other refs,
        (after.agents u).Keeps other refs ↔ (sys.agents u).Keeps other refs)
    (once : ∀ u, (after.agents u).Once)
    (onWay : ∀ u, (after.agents u).place.astray = false) :
    CacheSound after where
  pool := pool ▸ sound.pool
  treeNodup := pool ▸ sound.treeNodup
  present := pool ▸ sound.present
  unique := pool ▸ sound.unique
  queued := pool ▸ sound.queued
  kept := by
    intro u other refs
    rw [keeps, pool]
    exact sound.kept u other refs
  once := once
  onWay := onWay

/-- Work on a page that leaves it with the thread that keeps it, if one does. -/
theorem CacheSound.rework
    {found : PCache}
    (sound : CacheSound sys)
    (page : sys.pool.pages frame = some pc)
    (change : PageChange sys.pool after.pool frame (some found))
    (busy : found.busy = pc.busy)
    (refs : found.refs = pc.refs)
    (same : ∀ u, SameKept (sys.agents u) (after.agents u)) :
    CacheSound after := by
  refine sound.change change ?_ (fun u _ _ _ => (same u).keeps_iff)
    (fun u => (same u).once (sound.once u)) fun u => ?_
  · intro u count
    rw [(same u).keeps_iff, sound.keeps_iff page, ← busy, ← refs]
    constructor
    · exact fun facts => ⟨found, rfl, facts⟩
    · rintro ⟨other, isFound, facts⟩
      cases isFound
      exact facts
  · rw [(same u).astray]
    exact sound.onWay u

/-- How a page stands with a thread behind a step of that thread. -/
inductive StandsWith
    (agent : Agent)
    (t frame : Nat)
    (next : Option PCache) : Prop where
  | keeping
      (pc : PCache)
      (page : next = some pc)
      (busy : pc.busy = some t)
      (kept : agent.place.kept = some (frame, pc.refs))
  | released
      (pc : PCache)
      (page : next = some pc)
      (busy : pc.busy = none)
      (kept : agent.place.kept = none)
  | gone
      (page : next = none)
      (kept : agent.place.kept = none)

namespace StandsWith

variable {agent : Agent}

/-- A thread keeps the page in its call if it keeps the page BUSY. -/
theorem kept_iff
    {other refs : Nat}
    (stands : StandsWith agent t frame next) :
    agent.place.kept = some (other, refs) ↔
      other = frame ∧ ∃ pc, next = some pc ∧ pc.busy = some t ∧ pc.refs = refs := by
  cases stands with
  | keeping pc page busy kept =>
      rw [kept, page, Option.some.injEq, Prod.mk.injEq]
      constructor
      · rintro ⟨isFrame, count⟩
        exact ⟨isFrame.symm, pc, rfl, busy, count⟩
      · rintro ⟨isFrame, found, same, _, count⟩
        cases same
        exact ⟨isFrame.symm, count⟩
  | released pc page busy kept =>
      rw [kept, page]
      constructor
      · intro wrong
        cases wrong
      · rintro ⟨_, found, same, wrong, _⟩
        cases same
        rw [busy] at wrong
        cases wrong
  | gone page kept =>
      rw [kept, page]
      constructor
      · intro wrong
        cases wrong
      · rintro ⟨_, found, wrong, _⟩
        cases wrong

/-- Nobody else keeps the page. -/
theorem owner
    {u : Nat}
    (stands : StandsWith agent t frame next)
    (page : next = some pc)
    (busy : pc.busy = some u) :
    u = t := by
  cases stands with
  | keeping found same mine _ =>
      rw [page] at same
      cases same
      rw [busy] at mine
      exact Option.some.inj mine
  | released found same idle _ =>
      rw [page] at same
      cases same
      rw [busy] at idle
      cases idle
  | gone same _ =>
      rw [page] at same
      cases same

end StandsWith

/--
A thread takes a page that nobody keeps, goes on with the one that it works on in
its call, or puts one that it got.
-/
theorem CacheSound.act
    (sound : CacheSound sys)
    (change : PageChange sys.pool after.pool frame next)
    (free :
      ∀ u pc, sys.pool.pages frame = some pc → pc.busy = some u → u = t)
    (others : ∀ u, u ≠ t → SameKept (sys.agents u) (after.agents u))
    (before :
      ∀ other refs,
        (sys.agents t).place.kept = some (other, refs) → other = frame)
    (held : (after.agents t).held = (sys.agents t).held.erase frame)
    (stands : StandsWith (after.agents t) t frame next)
    (onWay : (after.agents t).place.astray = false) :
    CacheSound after := by
  have notHeld : frame ∉ (after.agents t).held := by
    rw [held]
    exact (sound.once t).nodup.not_mem_erase
  refine sound.change change ?_ ?_ ?_ ?_
  · intro u refs
    by_cases actor : u = t
    · subst actor
      rw [Agent.Keeps, stands.kept_iff]
      constructor
      · rintro (⟨wrong, _⟩ | ⟨_, facts⟩)
        · exact absurd wrong notHeld
        · exact facts
      · exact fun facts => .inr ⟨rfl, facts⟩
    · rw [(others u actor).keeps_iff, sound.kept]
      constructor
      · rintro ⟨pc, page, busy, _⟩
        exact absurd (free u pc page busy) actor
      · rintro ⟨pc, page, busy, _⟩
        exact absurd (stands.owner page busy) actor
  · intro u other refs different
    by_cases actor : u = t
    · subst actor
      rw [Agent.Keeps, Agent.Keeps, stands.kept_iff, held,
        List.mem_erase_of_ne different]
      constructor
      · rintro (got | ⟨wrong, _⟩)
        · exact .inl got
        · exact absurd wrong different
      · rintro (got | wrong)
        · exact .inl got
        · exact absurd (before other refs wrong) different
    · exact (others u actor).keeps_iff
  · intro u
    by_cases actor : u = t
    · subst actor
      refine
        { nodup := held ▸ (sound.once u).nodup.erase frame
          apart := ?_ }
      intro other refs kept
      obtain ⟨rfl, _⟩ := stands.kept_iff.mp kept
      exact notHeld
    · exact (others u actor).once (sound.once u)
  · intro u
    by_cases actor : u = t
    · subst actor
      exact onWay
    · rw [(others u actor).astray]
      exact sound.onWay u

end Change

end RiscvWorkshop.PageCache
