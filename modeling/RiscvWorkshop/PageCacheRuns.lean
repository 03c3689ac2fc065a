import Mathlib
import RiscvWorkshop.PageCacheEffects

namespace RiscvWorkshop.PageCache

/-!
# Runs of threads that use the page cache

Every effect keeps the cache sound, so that each page is BUSY and kept by one
thread, or on the LRU queue, in every state of a run.
-/

section Effects

variable {sys after : CacheSystem}
variable {action : CacheAction}
variable {t frame : Nat}
variable {pc found : PCache}

/-- Another thread is as it was when one thread changes. -/
theorem sameKept_of_ne
    {u : Nat}
    (agents : Nat → Agent)
    (agent : Agent)
    (different : u ≠ t) :
    SameKept (agents u) (Function.update agents t agent u) := by
  rw [Function.update_of_ne different]
  exact SameKept.refl _

@[simp] theorem CacheSystem.setPlace_self
    (sys : CacheSystem)
    (t : Nat)
    (place : Place) :
    (sys.setPlace t place).agents t = { sys.agents t with place } :=
  Function.update_self ..

@[simp] theorem CacheSystem.setAgent_self
    (sys : CacheSystem)
    (t : Nat)
    (agent : Agent) :
    (sys.setAgent t agent).agents t = agent :=
  Function.update_self ..

/-- The LRU queue has the pages that nobody keeps. -/
theorem CacheSound.mem_lru_iff
    (sound : CacheSound sys)
    (page : sys.pool.pages frame = some pc) :
    frame ∈ sys.pool.lru ↔ pc.busy = none := by
  constructor
  · intro member
    obtain ⟨other, same, idle, _⟩ := sound.pool.unused frame member
    rw [page] at same
    cases same
    exact idle
  · exact sound.queued frame pc page

/-- A page that nobody keeps has the references of pool and queue. -/
theorem CacheSound.refs_of_idle
    (sound : CacheSound sys)
    (page : sys.pool.pages frame = some pc)
    (idle : pc.busy = none) :
    pc.refs = 2 := by
  obtain ⟨other, same, _, refs⟩ :=
    sound.pool.unused frame (sound.queued frame pc page idle)
  rw [page] at same
  cases same
  exact refs

/-- A page cache is rewritten under its key, and the queue accordingly. -/
theorem CacheSound.rewrite
    {pool : Pool}
    (sound : CacheSound sys)
    (page : sys.pool.pages frame = some pc)
    (pages : pool.pages = Function.update sys.pool.pages frame (some found))
    (tree : pool.tree = sys.pool.tree)
    (key : found.key = pc.key)
    (valid : found.clean = !found.dirty)
    (used : 0 < found.refs)
    (few : found.refs ≤ 2)
    (nodup : pool.lru.Nodup)
    (others :
      ∀ other, other ≠ frame → (other ∈ pool.lru ↔ other ∈ sys.pool.lru))
    (queued : frame ∈ pool.lru ↔ found.busy = none)
    (full : found.busy = none → found.refs = 2) :
    PageChange sys.pool pool frame (some found) where
  pages := pages
  treeNodup := tree ▸ sound.treeNodup
  others := fun _ member _ => tree ▸ member
  present := fun _ => ⟨found, rfl⟩
  alone := by
    intro next other theirs isNext different page' keys
    cases isNext
    exact different
      (sound.unique other frame theirs pc page' page (keys.trans key))
  sound :=
    sound.pool.change found page valid used few pages tree nodup
      (fun other member different => (others other different).mp member)
      fun member => ⟨queued.mp member, full (queued.mp member)⟩
  lru := fun other member different => (others other different).mpr member
  queued := by
    intro next isNext idle
    cases isNext
    exact queued.mpr idle

/-- A page cache is rewritten and stays with the thread that keeps it. -/
theorem CacheSound.rewriteInPlace
    (sound : CacheSound sys)
    (page : sys.pool.pages frame = some pc)
    (key : found.key = pc.key)
    (valid : found.clean = !found.dirty)
    (used : 0 < found.refs)
    (few : found.refs ≤ 2)
    (busy : found.busy = pc.busy)
    (refs : pc.busy = none → found.refs = pc.refs) :
    PageChange sys.pool (sys.pool.setPage frame found) frame (some found) := by
  refine
    sound.rewrite page rfl rfl key valid used few sound.pool.nodup
      (fun _ _ => Iff.rfl) ?_ ?_
  · rw [busy]
    exact sound.mem_lru_iff page
  · intro idle
    rw [busy] at idle
    rw [refs idle]
    exact sound.refs_of_idle page idle

/-- A thread comes to a place where it keeps what it kept. -/
theorem CacheSound.sameKept_setPlace
    {place : Place}
    (sound : CacheSound sys)
    (kept : place.kept = (sys.agents t).place.kept)
    (onWay : place.astray = false)
    (u : Nat) :
    SameKept (sys.agents u) ((sys.setPlace t place).agents u) := by
  by_cases actor : u = t
  · subst actor
    rw [CacheSystem.setPlace_self]
    exact
      { held := rfl
        kept := kept
        astray := onWay.trans (sound.onWay u).symm }
  · exact sameKept_of_ne sys.agents _ actor

/-- No thread keeps a page that is not BUSY, or not there. -/
theorem CacheSound.not_held
    (sound : CacheSound sys)
    (notMine :
      ∀ pc, sys.pool.pages frame = some pc → pc.busy ≠ some t) :
    frame ∉ (sys.agents t).held := by
  intro held
  obtain ⟨pc, page, busy, _⟩ := sound.held_page held
  exact notMine pc page busy

/-- The page of a thread that is in a call is not one that it got. -/
theorem CacheSound.kept_cases
    (sound : CacheSound sys)
    (page : sys.pool.pages frame = some pc)
    (busy : pc.busy = some t) :
    (frame ∈ (sys.agents t).held ∧ pc.refs = 2) ∨
      (sys.agents t).place.kept = some (frame, pc.refs) :=
  (sound.keeps_iff page).mpr ⟨busy, rfl⟩

/-- A thread comes to another place where it keeps what it kept. -/
theorem CacheSound.setPlace
    {place : Place}
    (sound : CacheSound sys)
    (kept : place.kept = (sys.agents t).place.kept)
    (onWay : place.astray = false) :
    CacheSound (sys.setPlace t place) := by
  have same := sound.sameKept_setPlace kept onWay
  exact
    sound.move rfl (fun u _ _ => (same u).keeps_iff)
      (fun u => (same u).once (sound.once u))
      fun u => (same u).astray.trans (sound.onWay u)

/-- `pagecache_get` returns with the page that its call kept. -/
theorem CacheSound.got
    (sound : CacheSound sys)
    (place : (sys.agents t).place = .loading frame) :
    CacheSound
      (sys.setAgent t
        { place := .outside, held := frame :: (sys.agents t).held }) := by
  have kept : (sys.agents t).place.kept = some (frame, 2) := place ▸ rfl
  have notHeld := (sound.once t).apart frame 2 kept
  refine sound.move rfl ?_ ?_ ?_
  · intro u other refs
    by_cases actor : u = t
    · subst actor
      rw [CacheSystem.setAgent_self, Agent.Keeps, Agent.Keeps, kept,
        List.mem_cons, Option.some.injEq, Prod.mk.injEq]
      constructor
      · rintro (⟨rfl | got, two⟩ | wrong)
        · exact .inr ⟨rfl, two.symm⟩
        · exact .inl ⟨got, two⟩
        · cases wrong
      · rintro (⟨got, two⟩ | ⟨rfl, two⟩)
        · exact .inl ⟨.inr got, two⟩
        · exact .inl ⟨.inl rfl, two.symm⟩
    · exact (sameKept_of_ne sys.agents _ actor).keeps_iff
  · intro u
    by_cases actor : u = t
    · subst actor
      rw [CacheSystem.setAgent_self]
      exact
        { nodup := List.nodup_cons.mpr ⟨notHeld, (sound.once u).nodup⟩
          apart := by
            intro other refs wrong
            cases wrong }
    · exact (sameKept_of_ne sys.agents _ actor).once (sound.once u)
  · intro u
    by_cases actor : u = t
    · subst actor
      rw [CacheSystem.setAgent_self]
      rfl
    · exact (sameKept_of_ne sys.agents _ actor).astray.trans (sound.onWay u)

/-- A new page cache is registered. -/
theorem CacheSound.register
    (sound : CacheSound sys)
    (fresh : sys.pool.pages frame = none)
    (alone : ∀ other pc', sys.pool.pages other = some pc' → pc'.key ≠ pc.key)
    (valid : pc.clean = !pc.dirty)
    (refs : pc.refs = 2)
    (busy : pc.busy = some t) :
    PageChange sys.pool
      { sys.pool.setPage frame pc with tree := frame :: sys.pool.tree } frame
      (some pc) where
  pages := rfl
  treeNodup := by
    refine List.nodup_cons.mpr ⟨fun member => ?_, sound.treeNodup⟩
    obtain ⟨other, page⟩ := sound.present frame member
    rw [fresh] at page
    cases page
  others := fun other member different =>
    (List.mem_cons.mp member).resolve_left different
  present := fun _ => ⟨pc, rfl⟩
  alone := by
    intro next other found isNext _ page
    cases isNext
    exact alone other found page
  sound := sound.pool.register fresh valid (refs ▸ Nat.two_pos) refs.le
  lru := fun _ member _ => member
  queued := by
    intro next isNext idle
    cases isNext
    rw [busy] at idle
    cases idle

/-- A page cache that a thread keeps is removed. -/
theorem CacheSound.remove
    (sound : CacheSound sys)
    (page : sys.pool.pages frame = some pc)
    (busy : pc.busy = some t) :
    PageChange sys.pool (sys.pool.removePage frame) frame none where
  pages := rfl
  treeNodup := sound.treeNodup.erase frame
  others := fun _ member _ => List.mem_of_mem_erase member
  present := fun member => absurd member sound.treeNodup.not_mem_erase
  alone := by
    intro next other found wrong
    cases wrong
  sound := sound.pool.removePage (sound.pool.own_notLru page busy)
  lru := fun _ member _ => member
  queued := by
    intro next wrong
    cases wrong

/-- A thread that keeps no page in its call takes an unused one. -/
theorem CacheSound.took
    {place : Place}
    (sound : CacheSound sys)
    (page : sys.pool.pages frame = some pc)
    (idle : pc.busy = none)
    (free : (sys.agents t).place.kept = none)
    (kept : place.kept = some (frame, 2))
    (onWay : place.astray = false) :
    CacheSound
      ({ sys with
          pool :=
            { sys.pool.setPage frame { pc with busy := some t, refs := 2 } with
              lru := sys.pool.lru.erase frame } }
        |>.setPlace t place) := by
  have old := sound.pool.pages frame pc page
  have notBusy :
      ∀ u pc, sys.pool.pages frame = some pc → pc.busy ≠ some u := by
    intro u found same busy
    rw [page] at same
    cases same
    rw [idle] at busy
    cases busy
  have change :
      PageChange sys.pool
        { sys.pool.setPage frame { pc with busy := some t, refs := 2 } with
          lru := sys.pool.lru.erase frame }
        frame (some { pc with busy := some t, refs := 2 }) := by
    refine
      sound.rewrite page rfl rfl rfl old.valid Nat.two_pos le_rfl
        (sound.pool.nodup.erase frame)
        (fun other different => List.mem_erase_of_ne different) ?_ ?_
    · exact iff_of_false sound.pool.nodup.not_mem_erase
        (Option.some_ne_none t)
    · intro wrong
      cases wrong
  refine
    sound.act change (fun u found same busy => absurd busy (notBusy u found same))
      (fun u different => sameKept_of_ne sys.agents _ different)
      (fun other refs wrong => ?_) ?_ ?_ ?_
  · rw [free] at wrong
    cases wrong
  · rw [CacheSystem.setPlace_self,
      List.erase_of_not_mem (sound.not_held (notBusy t))]
  · rw [CacheSystem.setPlace_self]
    exact .keeping _ rfl rfl kept
  · rw [CacheSystem.setPlace_self]
    exact onWay

/-- A new page cache is registered by the thread that keeps it. -/
theorem CacheSound.registered
    (sound : CacheSound sys)
    (fresh : sys.pool.pages frame = none)
    (alone : ∀ other pc', sys.pool.pages other = some pc' → pc'.key ≠ pc.key)
    (valid : pc.clean = !pc.dirty)
    (refs : pc.refs = 2)
    (busy : pc.busy = some t)
    (free : (sys.agents t).place.kept = none) :
    CacheSound
      ({ sys with
          pool :=
            { sys.pool.setPage frame pc with tree := frame :: sys.pool.tree } }
        |>.setPlace t (.loading frame)) := by
  have absent :
      ∀ {found}, sys.pool.pages frame = some found → False := by
    intro found page
    rw [fresh] at page
    cases page
  refine
    sound.act (sound.register fresh alone valid refs busy)
      (fun u found page _ => (absent page).elim)
      (fun u different => sameKept_of_ne sys.agents _ different)
      (fun other refs wrong => ?_) ?_ ?_ ?_
  · rw [free] at wrong
    cases wrong
  · rw [CacheSystem.setPlace_self, List.erase_of_not_mem]
    exact sound.not_held fun found page => (absent page).elim
  · rw [CacheSystem.setPlace_self]
    exact .keeping pc rfl busy (by rw [refs]; rfl)
  · rw [CacheSystem.setPlace_self]
    rfl

/-- The thread that keeps a page drops its reference. -/
theorem CacheSound.dropped
    {place : Place}
    (sound : CacheSound sys)
    (page : sys.pool.pages frame = some pc)
    (busy : pc.busy = some t)
    (before :
      ∀ other refs,
        (sys.agents t).place.kept = some (other, refs) → other = frame)
    (kept : place.kept = some (frame, 1))
    (onWay : place.astray = false) :
    CacheSound
      ({ sys with pool := sys.pool.setPage frame { pc with refs := 1 } }
        |>.setAgent t { place, held := (sys.agents t).held.erase frame }) := by
  have old := sound.pool.pages frame pc page
  have change :
      PageChange sys.pool (sys.pool.setPage frame { pc with refs := 1 }) frame
        (some { pc with refs := 1 }) := by
    refine
      sound.rewriteInPlace page rfl old.valid Nat.one_pos Nat.one_le_ofNat rfl
        fun wrong => ?_
    rw [busy] at wrong
    cases wrong
  refine
    sound.act change (fun u found same theirs => ?_)
      (fun u different => sameKept_of_ne sys.agents _ different) before ?_ ?_ ?_
  · rw [page] at same
    cases same
    rw [busy] at theirs
    exact (Option.some.inj theirs).symm
  · rw [CacheSystem.setAgent_self]
  · rw [CacheSystem.setAgent_self]
    exact .keeping _ rfl busy kept
  · rw [CacheSystem.setAgent_self]
    exact onWay

/-- Waking threads changes nothing of what they keep. -/
theorem CacheSystem.wakeAll_sameKept
    (sys : CacheSystem)
    (waiters : List Nat)
    (u : Nat) :
    SameKept (sys.agents u) ((sys.wakeAll waiters).agents u) := by
  rw [CacheSystem.wakeAll]
  by_cases waiting : u ∈ waiters
  · simp only [if_pos waiting]
    exact Agent.wake_sameKept _
  · simp only [if_neg waiting]
    exact SameKept.refl _

theorem SameKept.trans
    {first second third : Agent}
    (left : SameKept first second)
    (right : SameKept second third) :
    SameKept first third where
  held := right.held.trans left.held
  kept := right.kept.trans left.kept
  astray := right.astray.trans left.astray

/-- `pagecache_put` gives a page back. -/
theorem CacheSound.released
    (sound : CacheSound sys)
    (page : sys.pool.pages frame = some pc)
    (busy : pc.busy = some t)
    (place : (sys.agents t).place = .putting frame) :
    CacheSound
      (({ sys with
          pool :=
            { sys.pool.setPage frame
                { pc with refs := 2, busy := none, waiters := [] } with
              lru := sys.pool.lru ++ [frame] } }
        |>.wakeAll pc.waiters)
        |>.setPlace t .outside) := by
  have old := sound.pool.pages frame pc page
  have notLru := sound.pool.own_notLru page busy
  have kept : (sys.agents t).place.kept = some (frame, 1) := place ▸ rfl
  have change :
      PageChange sys.pool
        { sys.pool.setPage frame
            { pc with refs := 2, busy := none, waiters := [] } with
          lru := sys.pool.lru ++ [frame] }
        frame (some { pc with refs := 2, busy := none, waiters := [] }) := by
    refine
      sound.rewrite page rfl rfl rfl old.valid Nat.two_pos le_rfl ?_
        (fun other different => ?_) ?_ fun _ => rfl
    · exact List.nodup_append'.mpr
        ⟨sound.pool.nodup, List.nodup_singleton frame,
          List.disjoint_singleton.mpr notLru⟩
    · rw [List.mem_append, List.mem_singleton, or_iff_left different]
    · exact iff_of_true
        (List.mem_append_right _ (List.mem_singleton_self frame)) rfl
  have woken := sys.wakeAll_sameKept pc.waiters
  refine
    sound.act change (fun u found same theirs => ?_)
      (fun u different =>
        (woken u).trans
          (sameKept_of_ne (sys.wakeAll pc.waiters).agents _ different))
      (fun other refs theirs => ?_) ?_ ?_ ?_
  · rw [page] at same
    cases same
    rw [busy] at theirs
    exact (Option.some.inj theirs).symm
  · rw [kept] at theirs
    cases theirs
    rfl
  · rw [CacheSystem.setPlace_self,
      List.erase_of_not_mem ((sound.once t).apart frame 1 kept)]
    exact (woken t).held
  · rw [CacheSystem.setPlace_self]
    exact .released _ rfl rfl rfl
  · rw [CacheSystem.setPlace_self]
    rfl

/-- The shrinker frees the page that it keeps. -/
theorem CacheSound.freed
    {place : Place}
    {refs : Nat}
    (sound : CacheSound sys)
    (page : sys.pool.pages frame = some pc)
    (busy : pc.busy = some t)
    (before : (sys.agents t).place.kept = some (frame, refs))
    (kept : place.kept = none)
    (onWay : place.astray = false) :
    CacheSound
      ({ sys with pool := sys.pool.removePage frame }.setPlace t place) := by
  refine
    sound.act (sound.remove page busy) (fun u found same theirs => ?_)
      (fun u different => sameKept_of_ne sys.agents _ different)
      (fun other count theirs => ?_) ?_ ?_ ?_
  · rw [page] at same
    cases same
    rw [busy] at theirs
    exact (Option.some.inj theirs).symm
  · rw [before] at theirs
    cases theirs
    rfl
  · rw [CacheSystem.setPlace_self,
      List.erase_of_not_mem ((sound.once t).apart frame refs before)]
  · rw [CacheSystem.setPlace_self]
    exact .gone rfl kept
  · rw [CacheSystem.setPlace_self]
    exact onWay

/-- Every effect keeps the cache sound. -/
theorem CacheSound.of_effect
    (sound : CacheSound sys)
    (effect : Effect sys action after) :
    CacheSound after := by
  cases effect with
  | asked t key place => exact sound.setPlace (place ▸ rfl) rfl
  | moved action t place goesOn kept => exact sound.setPlace kept goesOn.onWay
  | slept action t frame u key pc page busy awake wanted known kept =>
      have old := sound.pool.pages frame pc page
      exact
        sound.rework page
          (sound.rewriteInPlace page rfl old.valid old.used old.few rfl
            fun _ => rfl)
          rfl rfl (sound.sameKept_setPlace kept.symm rfl)
  | took action t frame pc place page idle goesOn free kept =>
      exact sound.took page idle free kept goesOn.onWay
  | registered t frame key fresh alone place =>
      exact sound.registered fresh alone rfl rfl rfl (place ▸ rfl)
  | got t frame place => exact sound.got place
  | reworked action t frame pc clean dirty place page busy valid goesOn kept =>
      have old := sound.pool.pages frame pc page
      exact
        sound.rework page
          (sound.rewriteInPlace page rfl valid old.used old.few rfl fun _ => rfl)
          rfl rfl (sound.sameKept_setPlace kept goesOn.onWay)
  | dropped action t frame pc place page busy refs before goesOn kept =>
      exact sound.dropped page busy before kept goesOn.onWay
  | released t frame pc page busy place => exact sound.released page busy place
  | freed t frame vars pc place page busy nobody shrinks goesOn kept =>
      have before : (sys.agents t).place.kept = some (frame, 1) :=
        shrinks ▸ rfl
      exact sound.freed page busy before kept goesOn.onWay
  | left t frame key pc page place =>
      have old := sound.pool.pages frame pc page
      exact
        sound.rework page
          (sound.rewriteInPlace page rfl old.valid old.used old.few rfl
            fun _ => rfl)
          rfl rfl (sound.sameKept_setPlace (place ▸ rfl) rfl)

end Effects

/-! ## Steps that leave a page to nobody -/

section Astray

variable {sys after : CacheSystem}
variable {action : CacheAction}
variable {t frame : Nat}
variable {pc : PCache}

/-- A page that is BUSY for a thread that does not keep it. -/
structure Abandoned
    (sys : CacheSystem)
    (t frame : Nat)
    (pc : PCache) : Prop where
  member : frame ∈ sys.pool.tree
  page : sys.pool.pages frame = some pc
  busy : pc.busy = some t
  notHeld : frame ∉ (sys.agents t).held
  notKept : (sys.agents t).place.kept = none
  only :
    ∀ other found,
      sys.pool.pages other = some found → found.key = pc.key → other = frame

/-- Nobody keeps a page that was abandoned. -/
theorem Abandoned.not_keeps
    {refs : Nat}
    (left : Abandoned sys t frame pc) :
    ¬ (sys.agents t).Keeps frame refs := by
  rintro (⟨held, _⟩ | inCall)
  · exact left.notHeld held
  · rw [left.notKept] at inCall
    cases inCall

/-- A page that was abandoned is in neither condition. -/
theorem Abandoned.not_pagesRight (left : Abandoned sys t frame pc) :
    ¬ PagesRight sys := by
  intro right
  obtain ⟨found, same, condition⟩ := right.conditions frame left.member
  rw [left.page] at same
  cases same
  cases condition with
  | busy u theirs keeps =>
      rw [left.busy] at theirs
      cases theirs
      obtain ⟨refs, kept⟩ := (keeps t).mpr rfl
      exact left.not_keeps kept
  | idle notBusy =>
      rw [left.busy] at notBusy
      cases notBusy

/-- A page that is not BUSY and off the LRU queue is in neither condition. -/
theorem not_pagesRight_of_idle
    (member : frame ∈ sys.pool.tree)
    (page : sys.pool.pages frame = some pc)
    (idle : pc.busy = none)
    (notLru : frame ∉ sys.pool.lru) :
    ¬ PagesRight sys := by
  intro right
  obtain ⟨found, same, condition⟩ := right.conditions frame member
  rw [page] at same
  cases same
  cases condition with
  | busy u theirs =>
      rw [idle] at theirs
      cases theirs
  | idle _ _ onLru =>
      rw [List.count_eq_zero_of_not_mem notLru] at onLru
      cases onLru

/-- A page is the only one with its key, also where it was rewritten. -/
theorem CacheSound.only
    {next : PCache}
    {pool : Pool}
    (sound : CacheSound sys)
    (page : sys.pool.pages frame = some pc)
    (key : next.key = pc.key)
    (pages : pool.pages = Function.update sys.pool.pages frame (some next))
    (other : Nat)
    (found : PCache)
    (page' : pool.pages other = some found)
    (keys : found.key = next.key) :
    other = frame := by
  by_contra different
  rw [pages, Function.update_of_ne different] at page'
  exact different
    (sound.unique other frame found pc page' page (keys.trans key))

/-- The page stays BUSY when the shrinker writes it back. -/
theorem Pool.shrinkWrite_stays
    {pool : Pool}
    (page : pool.pages frame = some pc)
    (busy : pc.busy = some t) :
    ∃ written next,
      pool.shrinkWrite t frame = some written ∧
        written.tree = pool.tree ∧
          written.pages = Function.update pool.pages frame (some next) ∧
            next.busy = some t ∧ next.key = pc.key := by
  rw [Pool.shrinkWrite, Pool.ownPage_of_busy page busy]
  by_cases dirty : pc.dirty = true
  · refine ⟨pool.setPage frame { pc with clean := true, dirty := false }, _, ?_,
      rfl, rfl, busy, rfl⟩
    simp only [if_pos dirty, Pool.pagecacheWrite,
      Pool.ownPage_of_busy page busy, Option.map_some]
  · refine ⟨pool, pc, by simp only [if_neg dirty], rfl, ?_, busy, rfl⟩
    rw [← page]
    exact (Function.update_eq_self ..).symm

/-- A call that writes only goes on without its page. -/
theorem writesOnly_next
    {vars : ShrinkVars}
    (place : (sys.agents t).place = .shrinking .write frame vars)
    (writesOnly : vars.wbonly = true)
    (page : sys.pool.pages frame = some pc)
    (busy : pc.busy = some t) :
    ∃ written next,
      cacheNext sys (.step t) =
          some ({ sys with pool := written }.setPlace t (.shrinkAgain vars)) ∧
        written.tree = sys.pool.tree ∧
          written.pages = Function.update sys.pool.pages frame (some next) ∧
            next.busy = some t ∧ next.key = pc.key := by
  obtain ⟨written, next, writes, facts⟩ := Pool.shrinkWrite_stays page busy
  refine ⟨written, next, ?_, facts⟩
  rw [cacheNext, CacheSystem.runSection, place]
  simp only [CacheSystem.shrinkSection, writes, Option.map_some, writesOnly,
    if_true]

/-- A call that writes only abandons the page that it takes. -/
theorem CacheSound.writesOnly_abandoned
    {max : Nat}
    (sound : CacheSound sys)
    (pages : sys.pool.lru ≠ [])
    (called : cacheNext sys (.shrink t max true) = some after) :
    ∃ final frame pc,
      cacheNext after (.step t) = some final ∧ Abandoned final t frame pc ∧
        ∀ u, u ≠ t → final.agents u = sys.agents u := by
  rw [cacheNext] at called
  split at called
  case isTrue outside =>
    cases lru : sys.pool.lru with
    | nil => exact absurd lru pages
    | cons first rest =>
        obtain ⟨pc, page, idle, refs, takes⟩ := sound.pool.shrinkTake_eq t lru
        rw [CacheSystem.shrinkHead, lru] at called
        simp only [lruNext, List.head?_cons, takes, Option.map_some,
          Option.some.injEq] at called
        obtain ⟨vars, writes, place⟩ :
            ∃ vars : ShrinkVars,
              vars.wbonly = true ∧
                (after.agents t).place = .shrinking .write first vars := by
          rw [← called, CacheSystem.setPlace_self]
          exact ⟨_, rfl, rfl⟩
        have taken :
            after.pool.pages first = some { pc with busy := some t } := by
          rw [← called]
          exact Pool.setPage_self ..
        obtain ⟨written, next, stepped, tree, rewritten, busy, key⟩ :=
          writesOnly_next place writes taken rfl
        subst called
        have updated :
            written.pages =
              Function.update sys.pool.pages first (some next) :=
          rewritten.trans (Function.update_idem ..)
        have notHeld : first ∉ (sys.agents t).held := by
          refine sound.not_held fun found same theirs => ?_
          rw [page] at same
          cases same
          rw [idle] at theirs
          cases theirs
        refine ⟨_, first, next, stepped, ?_, fun u different => ?_⟩
        · exact
            { member := tree ▸ (sound.pool.pages first pc page).registered
              page := by
                show written.pages first = some next
                rw [updated, Function.update_self]
              busy := busy
              notHeld := by
                rw [CacheSystem.setPlace_self, CacheSystem.setPlace_self]
                exact notHeld
              notKept := by
                rw [CacheSystem.setPlace_self]
                rfl
              only := sound.only page key updated }
        · exact
            (Function.update_of_ne different ..).trans
              (Function.update_of_ne different ..)
  · cases called

/-- With waiters the shrinker gives the page up, off the LRU queue, and wakes them. -/
theorem CacheSound.givenUp
    {vars : ShrinkVars}
    (sound : CacheSound sys)
    (place : (sys.agents t).place = .shrinking .check frame vars)
    (waiting : sys.pool.waitersOf frame ≠ [])
    (called : cacheNext sys (.step t) = some after) :
    ∃ pc place',
      sys.pool.pages frame = some pc ∧ pc.busy = some t ∧ pc.waiters ≠ [] ∧
        after =
          (({ sys with
              pool :=
                sys.pool.setPage frame { pc with busy := none, waiters := [] } }
            |>.wakeAll pc.waiters)
            |>.setPlace t place') := by
  obtain ⟨pc, page, busy, refs⟩ := sound.shrinking_page place rfl
  have someWaiter : pc.waiters ≠ [] := by
    simpa only [Pool.waitersOf, page] using waiting
  rw [cacheNext, CacheSystem.runSection, place] at called
  simp only [CacheSystem.shrinkSection, Pool.shrinkCheck,
    Pool.ownPage_of_busy page busy, if_neg someWaiter, Pool.waitersOf,
    page] at called
  cases called
  exact ⟨pc, _, page, busy, someWaiter, rfl⟩

/-- With waiters the last reference stays, and the shrinker abandons the page. -/
theorem CacheSound.notFreed_abandoned
    {vars : ShrinkVars}
    (sound : CacheSound sys)
    (place : (sys.agents t).place = .shrinking .free frame vars)
    (waiting : sys.pool.waitersOf frame ≠ [])
    (called : cacheNext sys (.step t) = some after) :
    ∃ pc, Abandoned after t frame pc ∧ pc.waiters ≠ [] := by
  obtain ⟨pc, page, busy, refs⟩ := sound.shrinking_page place rfl
  have someWaiter : pc.waiters ≠ [] := by
    simpa only [Pool.waitersOf, page] using waiting
  have notHeld : frame ∉ (sys.agents t).held :=
    (sound.once t).apart frame 1 (place ▸ rfl)
  rw [cacheNext, CacheSystem.runSection, place] at called
  simp only [CacheSystem.shrinkSection] at called
  split at called
  · cases called
  case h_2 pool dropped =>
    cases called
    obtain ⟨found, own, ⟨_, _, rfl⟩ | ⟨wrong, _⟩⟩ :=
      sound.pool.decPcacheReference_cases dropped
    · rw [Pool.ownPage_of_busy page busy] at own
      cases own
      refine ⟨{ pc with refs := 1 }, ?_, someWaiter⟩
      exact
        { member := (sound.pool.pages frame pc page).registered
          page := Pool.setPage_self ..
          busy := busy
          notHeld := by
            rw [CacheSystem.setPlace_self]
            exact notHeld
          notKept := by
            rw [CacheSystem.setPlace_self]
            rfl
          only := sound.only page rfl rfl }
    · cases wrong
  case h_3 pool dropped =>
    obtain ⟨found, own, ⟨wrong, _⟩ | ⟨_, _, nobody, _⟩⟩ :=
      sound.pool.decPcacheReference_cases dropped
    · cases wrong
    · rw [Pool.ownPage_of_busy page busy] at own
      cases own
      exact absurd nobody someWaiter

/-- A step that the condition excludes leads to a page without an owner. -/
theorem CacheSound.astray
    (sound : CacheSound sys)
    (called : cacheNext sys action = some after)
    (leaves : ¬ PagesStay sys action) :
    ∃ later final,
      Run (StepOf cacheNext) after later final ∧ ¬ PagesRight final := by
  cases action with
  | shrink t max wbonly =>
      obtain ⟨writes, pages⟩ := not_or.mp leaves
      rw [Bool.not_eq_false] at writes
      subst writes
      obtain ⟨final, frame, pc, stepped, left, _⟩ :=
        sound.writesOnly_abandoned pages called
      exact ⟨[.step t], final, .snoc .nil stepped, left.not_pagesRight⟩
  | step t =>
      rw [PagesStay] at leaves
      split at leaves
      case h_1 frame vars place =>
        obtain ⟨pc, _, page, busy, _, rfl⟩ :=
          sound.givenUp place leaves called
        refine ⟨[], _, .nil, ?_⟩
        exact
          not_pagesRight_of_idle (sound.pool.pages frame pc page).registered
            (Pool.setPage_self ..) rfl (sound.pool.own_notLru page busy)
      case h_2 frame vars place =>
        obtain ⟨pc, left, _⟩ := sound.notFreed_abandoned place leaves called
        exact ⟨[], after, .nil, left.not_pagesRight⟩
      · exact absurd trivial leaves
  | _ => exact absurd trivial leaves

end Astray

/--
As long as no step leaves a page, each registered page is in one of the two
conditions and no key is registered twice.  A step that the condition excludes
can be followed by steps after which some page is in neither condition.
-/
theorem pagesRight_of_run
    {sys : CacheSystem}
    {actions : List CacheAction}
    (run : Run (Guarded PagesStay (StepOf cacheNext)) emptyCache actions sys) :
    PagesRight sys ∧
      ∀ action after,
        cacheNext sys action = some after → ¬ PagesStay sys action →
          ∃ later final,
            Run (StepOf cacheNext) after later final ∧ ¬ PagesRight final := by
  have sound : CacheSound sys :=
    run.invariant emptyCache_sound fun sound stepped =>
      sound.of_effect (sound.effect stepped.1 stepped.2)
  exact
    ⟨sound.pagesRight, fun action after called leaves =>
      sound.astray called leaves⟩

/--
Thread 1 gets a page, marks it dirty and puts it while thread 2 waits for it.
Thread 2 puts it too, and thread 3 shrinks the cache, writes the page and frees it.
-/
def sharedPage : List CacheAction :=
  [.get 1 ⟨1, 0⟩, .step 1, .insert 1 5, .step 1, .markDirty 1 5, .get 2 ⟨1, 0⟩,
    .step 2, .put 1 5, .step 1, .step 2, .step 2, .put 2 5, .step 2,
    .shrink 3 1 false, .step 3, .step 3, .step 3]

/-- Behind the run the shrinker is about to free the page. -/
theorem pagesRight_of_run_shared :
    ∃ sys,
      execute (guardNext PagesStay cacheNext) emptyCache sharedPage = some sys ∧
        (sys.agents 3).place.kept = some (5, 1) ∧ PagesRight sys := by
  obtain ⟨sys, executed⟩ :
      ∃ sys,
        execute (guardNext PagesStay cacheNext) emptyCache sharedPage =
          some sys :=
    Option.isSome_iff_exists.mp (by decide +kernel)
  have facts :
      (execute (guardNext PagesStay cacheNext) emptyCache sharedPage).map
        (fun sys => (sys.agents 3).place.kept) = some (some (5, 1)) := by
    decide +kernel
  rw [executed, Option.map_some, Option.some.injEq] at facts
  exact
    ⟨sys, executed, facts,
      (pagesRight_of_run (Run.guarded_of_execute executed)).1⟩

end RiscvWorkshop.PageCache
