import Mathlib
import RiscvWorkshop.PageCacheSound

namespace RiscvWorkshop.PageCache

/-!
# What a step does to a sound cache

`Effect` lists what the steps of the threads come to in a sound cache, with what
is known of the page and of the thread.  `CacheSound.effect` is the one place
where the sections of the source are opened.
-/

/-- The page that a call of `pagecache_get` looks for. -/
def Place.wanted : Place → Option PageKey
  | .finding key => some key
  | .asleep _ key => some key
  | .woken _ key => some key
  | .allocating key => some key
  | _ => none

/-- The page that a thread sleeps on. -/
def Place.asleepOn : Place → Option Nat
  | .asleep frame _ => some frame
  | _ => none

/-- The page that a thread was woken for. -/
def Place.wokenOn : Place → Option Nat
  | .woken frame _ => some frame
  | _ => none

/-- A thread that is awake goes on to another place without a page to wait for. -/
structure GoesOn (before after : Place) : Prop where
  wasAwake : before.asleepOn = none
  awake : after.asleepOn = none
  taken : after.wokenOn = none
  wanted : after.wanted = none ∨ after.wanted = before.wanted
  onWay : after.astray = false

/-- What the steps do to a sound cache. -/
inductive Effect (sys : CacheSystem) : CacheAction → CacheSystem → Prop where
  /-- a call of `pagecache_get` begins -/
  | asked
      (t : Nat)
      (key : PageKey)
      (place : (sys.agents t).place = .outside) :
      Effect sys (.get t key) (sys.setPlace t (.finding key))
  /-- a thread comes to another place -/
  | moved
      (action : CacheAction)
      (t : Nat)
      (place : Place)
      (goesOn : GoesOn (sys.agents t).place place)
      (kept : place.kept = (sys.agents t).place.kept) :
      Effect sys action (sys.setPlace t place)
  /-- a thread waits for a page -/
  | slept
      (action : CacheAction)
      (t frame u : Nat)
      (key : PageKey)
      (pc : PCache)
      (page : sys.pool.pages frame = some pc)
      (busy : pc.busy = some u)
      (awake : (sys.agents t).place.asleepOn = none)
      (wanted : (sys.agents t).place.wanted = some key)
      (known : pc.key = key ∨ (sys.agents t).place = .woken frame key)
      (kept : (sys.agents t).place.kept = none) :
      Effect sys action
        ({ sys with
            pool :=
              sys.pool.setPage frame { pc with waiters := pc.waiters ++ [t] } }
          |>.setPlace t (.asleep frame key))
  /-- a page is taken off the LRU queue -/
  | took
      (action : CacheAction)
      (t frame : Nat)
      (pc : PCache)
      (place : Place)
      (page : sys.pool.pages frame = some pc)
      (idle : pc.busy = none)
      (goesOn : GoesOn (sys.agents t).place place)
      (free : (sys.agents t).place.kept = none)
      (kept : place.kept = some (frame, 2)) :
      Effect sys action
        ({ sys with
            pool :=
              { sys.pool.setPage frame { pc with busy := some t, refs := 2 } with
                lru := sys.pool.lru.erase frame } }
          |>.setPlace t place)
  /-- a new page is registered -/
  | registered
      (t frame : Nat)
      (key : PageKey)
      (fresh : sys.pool.pages frame = none)
      (alone :
        ∀ other pc, sys.pool.pages other = some pc → pc.key ≠ key)
      (place : (sys.agents t).place = .allocating key) :
      Effect sys (.insert t frame)
        ({ sys with
            pool :=
              { sys.pool.setPage frame
                  { bdevid := key.bdevid
                    offset := key.offset
                    busy := some t
                    clean := true
                    dirty := false
                    refs := 2
                    waiters := [] } with
                tree := frame :: sys.pool.tree } }
          |>.setPlace t (.loading frame))
  /-- `pagecache_get` returns with a page -/
  | got
      (t frame : Nat)
      (place : (sys.agents t).place = .loading frame) :
      Effect sys (.step t)
        (sys.setAgent t
          { place := .outside, held := frame :: (sys.agents t).held })
  /-- a page is marked dirty, or written back, by the thread that keeps it -/
  | reworked
      (action : CacheAction)
      (t frame : Nat)
      (pc : PCache)
      (clean dirty : Bool)
      (place : Place)
      (page : sys.pool.pages frame = some pc)
      (busy : pc.busy = some t)
      (valid : clean = !dirty)
      (goesOn : GoesOn (sys.agents t).place place)
      (kept : place.kept = (sys.agents t).place.kept) :
      Effect sys action
        ({ sys with pool := sys.pool.setPage frame { pc with clean, dirty } }
          |>.setPlace t place)
  /-- the reference of the thread that keeps the page goes -/
  | dropped
      (action : CacheAction)
      (t frame : Nat)
      (pc : PCache)
      (place : Place)
      (page : sys.pool.pages frame = some pc)
      (busy : pc.busy = some t)
      (refs : pc.refs = 2)
      (before :
        ∀ other refs,
          (sys.agents t).place.kept = some (other, refs) → other = frame)
      (goesOn : GoesOn (sys.agents t).place place)
      (kept : place.kept = some (frame, 1)) :
      Effect sys action
        ({ sys with pool := sys.pool.setPage frame { pc with refs := 1 } }
          |>.setAgent t { place, held := (sys.agents t).held.erase frame })
  /-- a page is put back on the LRU queue, and the threads that wait are woken -/
  | released
      (t frame : Nat)
      (pc : PCache)
      (page : sys.pool.pages frame = some pc)
      (busy : pc.busy = some t)
      (place : (sys.agents t).place = .putting frame) :
      Effect sys (.step t)
        (({ sys with
            pool :=
              { sys.pool.setPage frame
                  { pc with refs := 2, busy := none, waiters := [] } with
                lru := sys.pool.lru ++ [frame] } }
          |>.wakeAll pc.waiters)
          |>.setPlace t .outside)
  /-- the shrinker frees a page -/
  | freed
      (t frame : Nat)
      (vars : ShrinkVars)
      (pc : PCache)
      (place : Place)
      (page : sys.pool.pages frame = some pc)
      (busy : pc.busy = some t)
      (nobody : pc.waiters = [])
      (shrinks : (sys.agents t).place = .shrinking .free frame vars)
      (goesOn : GoesOn (sys.agents t).place place)
      (kept : place.kept = none) :
      Effect sys (.step t)
        ({ sys with pool := sys.pool.removePage frame }.setPlace t place)
  /-- an event ends a wait -/
  | left
      (t frame : Nat)
      (key : PageKey)
      (pc : PCache)
      (page : sys.pool.pages frame = some pc)
      (place : (sys.agents t).place = .asleep frame key) :
      Effect sys (.event t)
        ({ sys with
            pool :=
              sys.pool.setPage frame
                { pc with waiters := pc.waiters.erase t } }
          |>.setPlace t .outside)

/--
No call that writes only finds a page to write, and nobody waits for a page when
the shrinker looks for waiters or drops the last reference of the page.
-/
def PagesStay (sys : CacheSystem) : CacheAction → Prop
  | .shrink _ _ wbonly => wbonly = false ∨ sys.pool.lru = []
  | .step t =>
      match (sys.agents t).place with
      | .shrinking .check frame _ => sys.pool.waitersOf frame = []
      | .shrinking .free frame _ => sys.pool.waitersOf frame = []
      | _ => True
  | _ => True

instance (sys : CacheSystem) (action : CacheAction) :
    Decidable (PagesStay sys action) := by
  cases action with
  | shrink => exact inferInstanceAs (Decidable (_ ∨ _))
  | step t =>
      rw [PagesStay]
      split <;> infer_instance
  | _ => exact instDecidableTrue

section Sections

variable {sys after : CacheSystem}
variable {action : CacheAction}
variable {t frame : Nat}
variable {key : PageKey}

/-- A page that is found is in the pool under its key. -/
theorem Pool.findPage_eq_some
    {pool : Pool}
    (found : pool.findPage key = some frame) :
    ∃ pc, pool.pages frame = some pc ∧ pc.key = key := by
  have holds := List.find?_some found
  obtain ⟨pc, page, same⟩ := (Option.any_eq_true _ _).mp holds
  exact ⟨pc, page, of_decide_eq_true same⟩

/-- A key that is not found is the key of no page. -/
theorem CacheSound.alone_of_findPage
    (sound : CacheSound sys)
    (missing : sys.pool.findPage key = none)
    (other : Nat)
    (pc : PCache)
    (page : sys.pool.pages other = some pc) :
    pc.key ≠ key := by
  intro same
  have absent :=
    List.find?_eq_none.mp missing other (sound.pool.pages other pc page).registered
  rw [page] at absent
  exact absent (decide_eq_true same)

/-- A thread comes to a page in `lookup_pagecache`, and takes it or waits. -/
theorem CacheSound.enter_effect
    (sound : CacheSound sys)
    (awake : (sys.agents t).place.asleepOn = none)
    (wanted : (sys.agents t).place.wanted = some key)
    (known :
      ∀ pc, sys.pool.pages frame = some pc →
        pc.key = key ∨ (sys.agents t).place = .woken frame key)
    (kept : (sys.agents t).place.kept = none)
    (called : sys.enter t frame key = some after) :
    Effect sys action after := by
  rw [CacheSystem.enter] at called
  split at called
  · cases called
  case h_2 pc page =>
    obtain ⟨pool, entered, rfl⟩ := Option.map_eq_some_iff.mp called
    rw [Pool.lookupFound] at entered
    simp only [page] at entered
    split at entered
    case h_1 u busy =>
      cases entered
      rw [if_neg fun both => by rw [busy] at both; cases both.1]
      exact .slept action t frame u key pc page busy awake wanted
        (known pc page) kept
    case h_2 idle =>
      have queued := sound.queued frame pc page idle
      obtain ⟨found, same, _, refs⟩ := sound.pool.unused frame queued
      rw [page] at same
      cases same
      rw [if_pos queued, refs, if_neg (by decide : ¬ 2 - 1 = 0)] at entered
      cases entered
      rw [if_pos ⟨idle, queued⟩]
      exact .took action t frame pc (.loading frame) page idle
        { wasAwake := awake
          awake := rfl
          taken := rfl
          wanted := .inl rfl
          onWay := rfl }
        kept rfl

theorem CacheSound.find_effect
    (sound : CacheSound sys)
    (place : (sys.agents t).place = .finding key)
    (called : sys.find t key = some after) :
    Effect sys action after := by
  rw [CacheSystem.find] at called
  split at called
  · cases called
    refine .moved action t (.allocating key) ?_ ?_
    · rw [place]
      exact
        { wasAwake := rfl
          awake := rfl
          taken := rfl
          wanted := .inr rfl
          onWay := rfl }
    · rw [place]
      rfl
  case h_2 found =>
    refine sound.enter_effect ?_ ?_ (fun pc page => .inl ?_) ?_ called
    · rw [place]
      rfl
    · rw [place]
      rfl
    · obtain ⟨other, same, isKey⟩ := Pool.findPage_eq_some found
      rw [page] at same
      cases same
      exact isKey
    · rw [place]
      rfl

theorem CacheSound.insert_effect
    (sound : CacheSound sys)
    (place : (sys.agents t).place = .allocating key)
    (called : sys.insert t frame key = some after) :
    Effect sys (.insert t frame) after := by
  rw [CacheSystem.insert] at called
  split at called
  · cases called
  case isFalse unused =>
    have fresh : sys.pool.pages frame = none := by
      simpa using unused
    split at called
    case h_1 other found =>
      refine sound.enter_effect ?_ ?_ (fun pc page => .inl ?_) ?_ called
      · rw [place]
        rfl
      · rw [place]
        rfl
      · obtain ⟨pc', same, isKey⟩ := Pool.findPage_eq_some found
        rw [page] at same
        cases same
        exact isKey
      · rw [place]
        rfl
    case h_2 missing =>
      have alone := sound.alone_of_findPage missing
      obtain ⟨pool, entered, rfl⟩ := Option.map_eq_some_iff.mp called
      rw [Pool.lookupNew, if_neg unused, if_neg] at entered
      · cases entered
        exact .registered t frame key fresh alone place
      · intro registered
        obtain ⟨other, _, holds⟩ := List.any_eq_true.mp registered
        obtain ⟨pc, page, same⟩ := (Option.any_eq_true _ _).mp holds
        obtain ⟨device, offset⟩ := of_decide_eq_true same
        refine alone other pc page ?_
        rw [PCache.key, device, offset]

/-- The shrinker leaves, or takes the first page of the LRU queue. -/
theorem CacheSound.shrinkHead_effect
    {vars : ShrinkVars}
    (sound : CacheSound sys)
    (awake : (sys.agents t).place.asleepOn = none)
    (kept : (sys.agents t).place.kept = none)
    (frees : vars.lp ≠ none → vars.wbonly = false)
    (called : sys.shrinkHead t vars = some after) :
    Effect sys action after := by
  rw [CacheSystem.shrinkHead] at called
  split at called
  · cases called
    exact .moved action t .outside
      { wasAwake := awake
        awake := rfl
        taken := rfl
        wanted := .inl rfl
        onWay := rfl }
      kept.symm
  case h_2 entry isEntry =>
    obtain ⟨⟨frame, pool⟩, taken, rfl⟩ := Option.map_eq_some_iff.mp called
    have frees := frees (by rw [isEntry]; exact Option.some_ne_none entry)
    cases lru : sys.pool.lru with
    | nil =>
        rw [Pool.shrinkTake, lru] at taken
        cases taken
    | cons first rest =>
        obtain ⟨pc, page, idle, refs, takes⟩ := sound.pool.shrinkTake_eq t lru
        rw [takes] at taken
        cases taken
        have effect : Effect sys action _ :=
          .took action t frame pc (.shrinking .write frame vars) page idle
            { wasAwake := awake
              awake := rfl
              taken := rfl
              wanted := .inl rfl
              onWay := frees }
            kept rfl
        rw [lru, List.erase_cons_head] at effect
        simpa only [← refs] using effect

/-- The thread that is in a round of the shrinker keeps its page. -/
theorem CacheSound.shrinking_page
    {point : ShrinkPoint}
    {vars : ShrinkVars}
    {refs : Nat}
    (sound : CacheSound sys)
    (place : (sys.agents t).place = .shrinking point frame vars)
    (kept : (Place.shrinking point frame vars).kept = some (frame, refs)) :
    ∃ pc,
      sys.pool.pages frame = some pc ∧ pc.busy = some t ∧ pc.refs = refs :=
  (sound.kept t frame refs).mp (.inr (place ▸ kept))

/-- A page that a thread keeps is its own. -/
theorem Pool.ownPage_of_busy
    {pool : Pool}
    {pc : PCache}
    (page : pool.pages frame = some pc)
    (busy : pc.busy = some t) :
    pool.ownPage t frame = some pc := by
  rw [Pool.ownPage, page]
  exact Option.filter_some_pos (decide_eq_true busy)

/-- A place of the shrinker is not a place of `pagecache_get`. -/
theorem goesOn_of_shrinking
    {before place : Place}
    {point : ShrinkPoint}
    {vars : ShrinkVars}
    (isBefore : before = .shrinking point frame vars)
    (awake : place.asleepOn = none)
    (taken : place.wokenOn = none)
    (wanted : place.wanted = none)
    (onWay : place.astray = false) :
    GoesOn before place where
  wasAwake := isBefore ▸ rfl
  awake := awake
  taken := taken
  wanted := .inl wanted
  onWay := onWay

/-- One point of a round of the shrinker. -/
theorem CacheSound.shrinkSection_effect
    {point : ShrinkPoint}
    {vars : ShrinkVars}
    (sound : CacheSound sys)
    (place : (sys.agents t).place = .shrinking point frame vars)
    (stays : PagesStay sys (.step t))
    (called : sys.shrinkSection t frame vars point = some after) :
    Effect sys (.step t) after := by
  have frees : vars.wbonly = false := by
    have onWay := sound.onWay t
    rw [place] at onWay
    exact onWay
  rw [PagesStay] at stays
  simp only [place] at stays
  cases point with
  | write =>
      obtain ⟨pc, page, busy, refs⟩ := sound.shrinking_page place rfl
      have own := Pool.ownPage_of_busy page busy
      obtain ⟨pool, written, rfl⟩ := Option.map_eq_some_iff.mp called
      simp only [frees, Bool.false_eq_true, if_false]
      have goesOn :
          GoesOn (sys.agents t).place (.shrinking .drop frame vars) :=
        goesOn_of_shrinking place rfl rfl rfl frees
      have kept :
          (Place.shrinking .drop frame vars).kept =
            (sys.agents t).place.kept := by
        rw [place]
        rfl
      simp only [Pool.shrinkWrite, own, Pool.pagecacheWrite,
        Option.map_some] at written
      split at written
      · cases written
        exact .reworked (.step t) t frame pc true false _ page busy rfl goesOn
          kept
      · cases written
        exact .moved (.step t) t _ goesOn kept
  | drop =>
      obtain ⟨pc, page, busy, refs⟩ := sound.shrinking_page place rfl
      have own := Pool.ownPage_of_busy page busy
      obtain ⟨pool, dropped, rfl⟩ := Option.map_eq_some_iff.mp called
      simp only [Pool.shrinkDrop, own, refs] at dropped
      split at dropped
      · cases dropped
      · cases dropped
        have notHeld : frame ∉ (sys.agents t).held :=
          (sound.once t).apart frame 2 (place ▸ rfl)
        have effect : Effect sys (.step t) _ :=
          .dropped (.step t) t frame pc (.shrinking .check frame vars) page busy
            refs
            (fun other count kept => by
              rw [place] at kept
              cases kept
              rfl)
            (goesOn_of_shrinking place rfl rfl rfl frees) rfl
        rw [List.erase_of_not_mem notHeld] at effect
        exact effect
  | check =>
      obtain ⟨pc, page, busy, refs⟩ := sound.shrinking_page place rfl
      have own := Pool.ownPage_of_busy page busy
      have nobody : pc.waiters = [] := by
        simpa only [Pool.waitersOf, page] using stays
      simp only [CacheSystem.shrinkSection, Pool.shrinkCheck, own, nobody,
        if_pos] at called
      cases called
      exact .moved (.step t) t (.shrinking .free frame vars)
        (goesOn_of_shrinking place rfl rfl rfl frees) (by rw [place]; rfl)
  | free =>
      obtain ⟨pc, page, busy, refs⟩ := sound.shrinking_page place rfl
      have own := Pool.ownPage_of_busy page busy
      have nobody : pc.waiters = [] := by
        simpa only [Pool.waitersOf, page] using stays
      rw [CacheSystem.shrinkSection] at called
      split at called
      · cases called
      case h_2 pool dropped =>
        obtain ⟨found, same, ⟨_, more | waiting, _⟩ | ⟨wrong, _⟩⟩ :=
          sound.pool.decPcacheReference_cases dropped
        · rw [own] at same
          cases same
          rw [refs] at more
          cases more
        · rw [own] at same
          cases same
          exact absurd nobody waiting
        · cases wrong
      case h_3 pool dropped =>
        obtain ⟨found, _, ⟨wrong, _⟩ | ⟨_, _, _, rfl⟩⟩ :=
          sound.pool.decPcacheReference_cases dropped
        · cases wrong
        cases called
        refine .freed t frame vars pc _ page busy nobody place
          (goesOn_of_shrinking place ?_ ?_ ?_ ?_) ?_
        all_goals split <;> first | rfl | exact frees

/-- A page that was got is kept with two references. -/
theorem CacheSound.held_page
    (sound : CacheSound sys)
    (held : frame ∈ (sys.agents t).held) :
    ∃ pc, sys.pool.pages frame = some pc ∧ pc.busy = some t ∧ pc.refs = 2 :=
  (sound.kept t frame 2).mp (.inl ⟨held, rfl⟩)

/-- A thread outside of the calls goes on to where it is. -/
theorem goesOn_outside
    {place : Place}
    (outside : place = .outside) :
    GoesOn place place where
  wasAwake := outside ▸ rfl
  awake := outside ▸ rfl
  taken := outside ▸ rfl
  wanted := .inr rfl
  onWay := outside ▸ rfl

/-- A thread that comes to where it is stays there. -/
theorem CacheSystem.setPlace_same
    (sys : CacheSystem)
    (t : Nat) :
    sys.setPlace t (sys.agents t).place = sys := by
  rw [CacheSystem.setPlace]
  exact congrArg (CacheSystem.mk sys.pool) (Function.update_eq_self ..)

/-- A page that was got is marked dirty, or written back. -/
theorem CacheSound.onHeld_effect
    {result : Option Pool}
    (clean dirty : Bool)
    (valid : clean = !dirty)
    (sound : CacheSound sys)
    (works :
      result =
        (sys.pool.ownPage t frame).map fun pc =>
          sys.pool.setPage frame { pc with clean, dirty })
    (called :
      sys.onHeld t frame (result.map fun pool => { sys with pool }) =
        some after) :
    Effect sys action after := by
  rw [CacheSystem.onHeld] at called
  split at called
  case isTrue enabled =>
    obtain ⟨outside, held⟩ := enabled
    obtain ⟨pc, page, busy, _⟩ := sound.held_page held
    rw [works, Pool.ownPage_of_busy page busy] at called
    cases called
    show Effect sys action
      { sys with pool := sys.pool.setPage frame { pc with clean, dirty } }
    rw [← CacheSystem.setPlace_same
      { sys with pool := sys.pool.setPage frame { pc with clean, dirty } } t]
    exact .reworked action t frame pc clean dirty (sys.agents t).place page
      busy valid (goesOn_outside outside) rfl
  · cases called

/-- `pagecache_put` drops the reference of the thread. -/
theorem CacheSound.put_effect
    (sound : CacheSound sys)
    (called : cacheNext sys (.put t frame) = some after) :
    Effect sys (.put t frame) after := by
  simp only [cacheNext, CacheSystem.onHeld] at called
  split at called
  case isTrue enabled =>
    obtain ⟨outside, held⟩ := enabled
    obtain ⟨pc, page, busy, refs⟩ := sound.held_page held
    have own := Pool.ownPage_of_busy page busy
    split at called
    · cases called
    case h_2 pool dropped =>
      cases called
      obtain ⟨found, same, ⟨_, _, rfl⟩ | ⟨wrong, _⟩⟩ :=
        sound.pool.decPcacheReference_cases dropped
      · rw [own] at same
        cases same
        exact .dropped (.put t frame) t frame pc (.putting frame) page busy refs
          (fun other count kept => by rw [outside] at kept; cases kept)
          { wasAwake := outside ▸ rfl
            awake := rfl
            taken := rfl
            wanted := .inl rfl
            onWay := rfl }
          rfl
      · cases wrong
    case h_3 pool dropped =>
      obtain ⟨found, same, ⟨wrong, _⟩ | ⟨_, one, _⟩⟩ :=
        sound.pool.decPcacheReference_cases dropped
      · cases wrong
      · rw [own] at same
        cases same
        rw [refs] at one
        cases one
  · cases called

/-- The end of `pagecache_put`. -/
theorem CacheSound.putting_effect
    (sound : CacheSound sys)
    (place : (sys.agents t).place = .putting frame)
    (called :
      ((sys.pool.putEnd frame).map fun pool =>
        ({ sys with pool }.wakeAll (sys.pool.waitersOf frame)).setPlace t
          .outside) = some after) :
    Effect sys (.step t) after := by
  obtain ⟨pool, ended, rfl⟩ := Option.map_eq_some_iff.mp called
  obtain ⟨pc, page, busy, refs⟩ :=
    (sound.kept t frame 1).mp (.inr (place ▸ rfl))
  simp only [Pool.putEnd, page, refs, if_neg Nat.one_ne_zero,
    Option.some.injEq] at ended
  subst ended
  simp only [Pool.waitersOf, page]
  exact .released t frame pc page busy place

/-- The next section of a call. -/
theorem CacheSound.step_effect
    (sound : CacheSound sys)
    (stays : PagesStay sys (.step t))
    (called : sys.runSection t = some after) :
    Effect sys (.step t) after := by
  rw [CacheSystem.runSection] at called
  cases place : (sys.agents t).place with
  | outside => simp only [place, reduceCtorEq] at called
  | asleep => simp only [place, reduceCtorEq] at called
  | allocating => simp only [place, reduceCtorEq] at called
  | stopped => simp only [place, reduceCtorEq] at called
  | finding key =>
      simp only [place] at called
      exact sound.find_effect place called
  | woken frame key =>
      simp only [place] at called
      exact sound.enter_effect (place ▸ rfl) (place ▸ rfl)
        (fun _ _ => .inr place) (place ▸ rfl) called
  | loading frame =>
      simp only [place] at called
      cases called
      exact .got t frame place
  | putting frame =>
      simp only [place] at called
      exact sound.putting_effect place called
  | shrinking point frame vars =>
      simp only [place] at called
      exact sound.shrinkSection_effect place stays called
  | shrinkAgain vars =>
      simp only [place] at called
      have frees : (vars.advance sys.pool).wbonly = false := by
        have onWay := sound.onWay t
        rw [place] at onWay
        exact onWay
      have awake : (sys.agents t).place.asleepOn = none := by
        rw [place]
        rfl
      have kept : (sys.agents t).place.kept = none := by
        rw [place]
        rfl
      exact sound.shrinkHead_effect awake kept (fun _ => frees) called
  | shrinkUnlocked vars =>
      have onWay := sound.onWay t
      rw [place] at onWay
      cases onWay

/-- A step of a sound cache has one of the effects. -/
theorem CacheSound.effect
    (sound : CacheSound sys)
    (stays : PagesStay sys action)
    (called : cacheNext sys action = some after) :
    Effect sys action after := by
  cases action with
  | get t key =>
      rw [cacheNext] at called
      split at called
      case isTrue outside =>
        cases called
        exact .asked t key outside
      · cases called
  | step t => exact sound.step_effect stays called
  | insert t frame =>
      rw [cacheNext] at called
      split at called
      case h_1 key place => exact sound.insert_effect place called
      · cases called
  | noMemory t =>
      rw [cacheNext] at called
      split at called
      case h_1 key place =>
        cases called
        exact .moved (.noMemory t) t .outside
          { wasAwake := place ▸ rfl
            awake := rfl
            taken := rfl
            wanted := .inl rfl
            onWay := rfl }
          (place ▸ rfl)
      · cases called
  | event t =>
      rw [cacheNext] at called
      split at called
      case h_1 frame key place =>
        obtain ⟨pool, leaves, rfl⟩ := Option.map_eq_some_iff.mp called
        obtain ⟨pc, page, rfl⟩ := Option.map_eq_some_iff.mp leaves
        exact .left t frame key pc page place
      · cases called
  | markDirty t frame =>
      exact sound.onHeld_effect false true rfl rfl called
  | write t frame =>
      exact sound.onHeld_effect true false rfl rfl called
  | put t frame => exact sound.put_effect called
  | shrink t max wbonly =>
      rw [cacheNext] at called
      split at called
      case isTrue outside =>
        refine sound.shrinkHead_effect (outside ▸ rfl) (outside ▸ rfl)
          (fun entries => ?_) called
        rcases stays with frees | empty
        · exact frees
        · rw [empty] at entries
          exact absurd rfl entries
      · cases called

end Sections

end RiscvWorkshop.PageCache
