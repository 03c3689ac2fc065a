import Mathlib
import RiscvWorkshop.PageCacheRuns

namespace RiscvWorkshop.PageCache

/-!
# Threads that wait for a page

A thread that waits stands on the wait queue of its page, and the page is kept by
another thread.  A thread that was woken is on no queue any more, so the pool
alone does not say that it still counts on the page.
-/

/-- What holds of the threads that wait, and of those that were woken. -/
structure WaitSound (sys : CacheSystem) : Prop where
  asleep :
    ∀ t frame key,
      (sys.agents t).place = .asleep frame key →
        ∃ pc u,
          sys.pool.pages frame = some pc ∧ pc.key = key ∧ t ∈ pc.waiters ∧
            pc.busy = some u ∧ u ≠ t
  waiting :
    ∀ frame pc t,
      sys.pool.pages frame = some pc → t ∈ pc.waiters →
        ∃ key, (sys.agents t).place = .asleep frame key
  nodup : ∀ frame pc, sys.pool.pages frame = some pc → pc.waiters.Nodup
  woken :
    ∀ t frame key,
      (sys.agents t).place = .woken frame key →
        ∃ pc, sys.pool.pages frame = some pc ∧ pc.key = key
  apart :
    ∀ t frame pc,
      frame ∈ (sys.agents t).held → sys.pool.pages frame = some pc →
        (sys.agents t).place.wanted ≠ some pc.key

/-- Nobody waits for a page that nobody keeps. -/
theorem WaitSound.nobody_of_idle
    {sys : CacheSystem}
    {frame : Nat}
    {pc : PCache}
    (waits : WaitSound sys)
    (page : sys.pool.pages frame = some pc)
    (idle : pc.busy = none) :
    pc.waiters = [] := by
  rw [List.eq_nil_iff_forall_not_mem]
  intro t member
  obtain ⟨key, place⟩ := waits.waiting frame pc t page member
  obtain ⟨found, u, same, _, _, busy, _⟩ := waits.asleep t frame key place
  rw [page] at same
  cases same
  rw [idle] at busy
  cases busy

/-- Threads that wait are served, and not by themselves, on pages that are there. -/
theorem WaitSound.waitersRight
    {sys : CacheSystem}
    (sound : CacheSound sys)
    (waits : WaitSound sys) :
    WaitersRight sys where
  served := by
    intro frame pc page waiting
    obtain ⟨t, member⟩ := List.exists_mem_of_ne_nil _ waiting
    obtain ⟨key, place⟩ := waits.waiting frame pc t page member
    obtain ⟨found, u, same, _, _, busy, _⟩ := waits.asleep t frame key place
    rw [page] at same
    cases same
    exact ⟨u, pc.refs, busy, (sound.keeps_iff page).mpr ⟨busy, rfl⟩⟩
  notOwn := by
    intro t frame key pc place page busy
    obtain ⟨found, u, same, _, _, theirs, different⟩ :=
      waits.asleep t frame key place
    rw [page] at same
    cases same
    rw [busy] at theirs
    exact different (Option.some.inj theirs).symm
  stillThere := by
    rintro t frame key (place | place)
    · obtain ⟨pc, u, page, isKey, _⟩ := waits.asleep t frame key place
      exact ⟨(sound.pool.pages frame pc page).registered, pc, page, isKey⟩
    · obtain ⟨pc, page, isKey⟩ := waits.woken t frame key place
      exact ⟨(sound.pool.pages frame pc page).registered, pc, page, isKey⟩

theorem emptyCache_waitSound : WaitSound emptyCache where
  asleep := by
    intro t frame key place
    cases place
  waiting := by
    intro frame pc t page
    cases page
  nodup := by
    intro frame pc page
    cases page
  woken := by
    intro t frame key place
    cases place
  apart := by
    intro t frame pc held
    cases held

theorem Place.not_asleep
    {place : Place}
    {frame : Nat}
    {key : PageKey}
    (awake : place.asleepOn = none) :
    place ≠ .asleep frame key := by
  rintro rfl
  cases awake

theorem Place.not_woken
    {place : Place}
    {frame : Nat}
    {key : PageKey}
    (taken : place.wokenOn = none) :
    place ≠ .woken frame key := by
  rintro rfl
  cases taken

section Change

variable {sys after : CacheSystem}
variable {t frame : Nat}

/--
One thread that is awake comes to a place where it waits for nothing, and one
page is changed but for its waiters, or has none.
-/
theorem WaitSound.goes
    (t frame : Nat)
    (waits : WaitSound sys)
    (wasAwake : (sys.agents t).place.asleepOn = none)
    (awake : (after.agents t).place.asleepOn = none)
    (taken : (after.agents t).place.wokenOn = none)
    (others : ∀ u, u ≠ t → after.agents u = sys.agents u)
    (rest :
      ∀ other, other ≠ frame → after.pool.pages other = sys.pool.pages other)
    (key :
      ∀ next, after.pool.pages frame = some next →
        ∀ pc, sys.pool.pages frame = some pc → next.key = pc.key)
    (queue :
      ∀ next, after.pool.pages frame = some next →
        next.waiters = [] ∨
          ∃ pc, sys.pool.pages frame = some pc ∧ next.waiters = pc.waiters)
    (stays :
      ∀ pc, sys.pool.pages frame = some pc → pc.waiters ≠ [] →
        ∃ next,
          after.pool.pages frame = some next ∧ next.busy = pc.busy ∧
            next.waiters = pc.waiters)
    (counted :
      ∀ u wanted, (sys.agents u).place = .woken frame wanted → u ≠ t →
        ∃ next, after.pool.pages frame = some next)
    (there :
      ∀ u, frame ∈ (sys.agents u).held → ∃ pc, sys.pool.pages frame = some pc)
    (apart :
      ∀ other pc,
        other ∈ (after.agents t).held → after.pool.pages other = some pc →
          (after.agents t).place.wanted ≠ some pc.key) :
    WaitSound after where
  asleep := by
    intro u other wanted place
    have different : u ≠ t := by
      rintro rfl
      exact Place.not_asleep awake place
    rw [others u different] at place
    obtain ⟨pc, v, page, isKey, member, busy, notSelf⟩ :=
      waits.asleep u other wanted place
    by_cases same : other = frame
    · subst same
      obtain ⟨next, page', busy', waiters⟩ :=
        stays pc page (List.ne_nil_of_mem member)
      exact
        ⟨next, v, page', (key next page' pc page).trans isKey,
          waiters ▸ member, busy'.trans busy, notSelf⟩
    · exact
        ⟨pc, v, (rest other same).trans page, isKey, member, busy, notSelf⟩
  waiting := by
    intro other pc u page member
    have old :
        ∃ found, sys.pool.pages other = some found ∧ u ∈ found.waiters := by
      by_cases same : other = frame
      · subst same
        rcases queue pc page with empty | ⟨found, page', waiters⟩
        · rw [empty] at member
          cases member
        · exact ⟨found, page', waiters ▸ member⟩
      · exact ⟨pc, (rest other same) ▸ page, member⟩
    obtain ⟨found, page', member'⟩ := old
    obtain ⟨wanted, place⟩ := waits.waiting other found u page' member'
    have different : u ≠ t := by
      rintro rfl
      exact Place.not_asleep wasAwake place
    exact ⟨wanted, (others u different) ▸ place⟩
  nodup := by
    intro other pc page
    by_cases same : other = frame
    · subst same
      rcases queue pc page with empty | ⟨found, page', waiters⟩
      · rw [empty]
        exact List.nodup_nil
      · rw [waiters]
        exact waits.nodup other found page'
    · rw [rest other same] at page
      exact waits.nodup other pc page
  woken := by
    intro u other wanted place
    have different : u ≠ t := by
      rintro rfl
      exact Place.not_woken taken place
    rw [others u different] at place
    obtain ⟨pc, page, isKey⟩ := waits.woken u other wanted place
    by_cases same : other = frame
    · subst same
      obtain ⟨next, page'⟩ := counted u wanted place different
      exact ⟨next, page', (key next page' pc page).trans isKey⟩
    · exact ⟨pc, (rest other same).trans page, isKey⟩
  apart := by
    intro u other pc held page
    by_cases actor : u = t
    · subst actor
      exact apart other pc held page
    · rw [others u actor] at held ⊢
      by_cases same : other = frame
      · subst same
        obtain ⟨found, page'⟩ := there u held
        rw [key pc page found page']
        exact waits.apart u other found held page'
      · rw [rest other same] at page
        exact waits.apart u other pc held page

/-- Another thread is as it was when one thread comes to a place. -/
theorem CacheSystem.setPlace_of_ne
    {u : Nat}
    (sys : CacheSystem)
    (place : Place)
    (different : u ≠ t) :
    (sys.setPlace t place).agents u = sys.agents u :=
  Function.update_of_ne different ..

theorem CacheSystem.setAgent_of_ne
    {u : Nat}
    (sys : CacheSystem)
    (agent : Agent)
    (different : u ≠ t) :
    (sys.setAgent t agent).agents u = sys.agents u :=
  Function.update_of_ne different ..

variable {pc : PCache}
variable {key : PageKey}

/-- A thread goes to sleep on a page that another thread keeps. -/
theorem WaitSound.slept
    {u : Nat}
    (waits : WaitSound sys)
    (page : sys.pool.pages frame = some pc)
    (busy : pc.busy = some u)
    (different : u ≠ t)
    (awake : (sys.agents t).place.asleepOn = none)
    (wanted : (sys.agents t).place.wanted = some key)
    (isKey : pc.key = key) :
    WaitSound
      ({ sys with
          pool :=
            sys.pool.setPage frame { pc with waiters := pc.waiters ++ [t] } }
        |>.setPlace t (.asleep frame key)) where
  asleep := by
    intro v other other_key place
    by_cases actor : v = t
    · subst actor
      rw [CacheSystem.setPlace_self] at place
      cases place
      exact
        ⟨_, u, Pool.setPage_self .., isKey,
          List.mem_append_right _ (List.mem_singleton_self v), busy, different⟩
    · rw [CacheSystem.setPlace_of_ne _ _ actor] at place
      obtain ⟨found, w, page', isKey', member, busy', notSelf⟩ :=
        waits.asleep v other other_key place
      by_cases same : other = frame
      · subst same
        rw [page] at page'
        cases page'
        exact
          ⟨_, w, Pool.setPage_self .., isKey', List.mem_append_left _ member,
            busy', notSelf⟩
      · exact
          ⟨found, w, (Pool.setPage_of_ne sys.pool _ same).trans page', isKey',
            member, busy', notSelf⟩
  waiting := by
    intro other found v page' member
    by_cases same : other = frame
    · subst same
      rw [CacheSystem.setPlace, Pool.setPage_self] at page'
      cases page'
      rcases List.mem_append.mp member with old | new
      · obtain ⟨wanted', place⟩ := waits.waiting other pc v page old
        have actor : v ≠ t := by
          rintro rfl
          exact Place.not_asleep awake place
        rw [CacheSystem.setPlace_of_ne _ _ actor]
        exact ⟨wanted', place⟩
      · rw [List.mem_singleton.mp new, CacheSystem.setPlace_self]
        exact ⟨key, rfl⟩
    · rw [CacheSystem.setPlace, Pool.setPage_of_ne sys.pool _ same] at page'
      obtain ⟨wanted', place⟩ := waits.waiting other found v page' member
      have actor : v ≠ t := by
        rintro rfl
        exact Place.not_asleep awake place
      rw [CacheSystem.setPlace_of_ne _ _ actor]
      exact ⟨wanted', place⟩
  nodup := by
    intro other found page'
    by_cases same : other = frame
    · subst same
      rw [CacheSystem.setPlace, Pool.setPage_self] at page'
      cases page'
      refine
        List.nodup_append'.mpr
          ⟨waits.nodup other pc page, List.nodup_singleton t,
            List.disjoint_singleton.mpr fun member => ?_⟩
      obtain ⟨wanted', place⟩ := waits.waiting other pc t page member
      exact Place.not_asleep awake place
    · rw [CacheSystem.setPlace, Pool.setPage_of_ne sys.pool _ same] at page'
      exact waits.nodup other found page'
  woken := by
    intro v other other_key place
    have actor : v ≠ t := by
      rintro rfl
      rw [CacheSystem.setPlace_self] at place
      cases place
    rw [CacheSystem.setPlace_of_ne _ _ actor] at place
    obtain ⟨found, page', isKey'⟩ := waits.woken v other other_key place
    by_cases same : other = frame
    · subst same
      rw [page] at page'
      cases page'
      exact ⟨_, Pool.setPage_self .., isKey'⟩
    · exact ⟨found, (Pool.setPage_of_ne sys.pool _ same).trans page', isKey'⟩
  apart := by
    intro v other found held page'
    have old :
        ∃ was, sys.pool.pages other = some was ∧ found.key = was.key := by
      by_cases same : other = frame
      · subst same
        rw [CacheSystem.setPlace, Pool.setPage_self] at page'
        cases page'
        exact ⟨pc, page, rfl⟩
      · rw [CacheSystem.setPlace, Pool.setPage_of_ne sys.pool _ same] at page'
        exact ⟨found, page', rfl⟩
    obtain ⟨was, wasPage, keys⟩ := old
    rw [keys]
    by_cases actor : v = t
    · subst actor
      rw [CacheSystem.setPlace_self] at held ⊢
      have different := waits.apart v other was held wasPage
      rw [wanted] at different
      exact different
    · rw [CacheSystem.setPlace_of_ne _ _ actor] at held ⊢
      exact waits.apart v other was held wasPage

/-- An event takes a thread off the wait queue of its page. -/
theorem WaitSound.left
    (waits : WaitSound sys)
    (page : sys.pool.pages frame = some pc)
    (place : (sys.agents t).place = .asleep frame key) :
    WaitSound
      ({ sys with
          pool :=
            sys.pool.setPage frame { pc with waiters := pc.waiters.erase t } }
        |>.setPlace t .outside) where
  asleep := by
    intro v other wanted place'
    have actor : v ≠ t := by
      rintro rfl
      rw [CacheSystem.setPlace_self] at place'
      cases place'
    rw [CacheSystem.setPlace_of_ne _ _ actor] at place'
    obtain ⟨found, u, page', isKey, member, busy, notSelf⟩ :=
      waits.asleep v other wanted place'
    by_cases same : other = frame
    · subst same
      rw [page] at page'
      cases page'
      exact
        ⟨_, u, Pool.setPage_self .., isKey,
          (List.mem_erase_of_ne actor).mpr member, busy, notSelf⟩
    · exact
        ⟨found, u, (Pool.setPage_of_ne sys.pool _ same).trans page', isKey,
          member, busy, notSelf⟩
  waiting := by
    intro other found v page' member
    by_cases same : other = frame
    · subst same
      rw [CacheSystem.setPlace, Pool.setPage_self] at page'
      cases page'
      have actor : v ≠ t := by
        rintro rfl
        exact (waits.nodup other pc page).not_mem_erase member
      rw [CacheSystem.setPlace_of_ne _ _ actor]
      exact waits.waiting other pc v page (List.mem_of_mem_erase member)
    · rw [CacheSystem.setPlace, Pool.setPage_of_ne sys.pool _ same] at page'
      obtain ⟨wanted, place'⟩ := waits.waiting other found v page' member
      have actor : v ≠ t := by
        rintro rfl
        rw [place] at place'
        cases place'
        exact same rfl
      rw [CacheSystem.setPlace_of_ne _ _ actor]
      exact ⟨wanted, place'⟩
  nodup := by
    intro other found page'
    by_cases same : other = frame
    · subst same
      rw [CacheSystem.setPlace, Pool.setPage_self] at page'
      cases page'
      exact (waits.nodup other pc page).erase t
    · rw [CacheSystem.setPlace, Pool.setPage_of_ne sys.pool _ same] at page'
      exact waits.nodup other found page'
  woken := by
    intro v other wanted place'
    have actor : v ≠ t := by
      rintro rfl
      rw [CacheSystem.setPlace_self] at place'
      cases place'
    rw [CacheSystem.setPlace_of_ne _ _ actor] at place'
    obtain ⟨found, page', isKey⟩ := waits.woken v other wanted place'
    by_cases same : other = frame
    · subst same
      rw [page] at page'
      cases page'
      exact ⟨_, Pool.setPage_self .., isKey⟩
    · exact ⟨found, (Pool.setPage_of_ne sys.pool _ same).trans page', isKey⟩
  apart := by
    intro v other found held page'
    by_cases actor : v = t
    · subst actor
      rw [CacheSystem.setPlace_self]
      exact (Option.some_ne_none _).symm
    · rw [CacheSystem.setPlace_of_ne _ _ actor] at held ⊢
      by_cases same : other = frame
      · subst same
        rw [CacheSystem.setPlace, Pool.setPage_self] at page'
        cases page'
        exact waits.apart v other pc held page
      · rw [CacheSystem.setPlace, Pool.setPage_of_ne sys.pool _ same] at page'
        exact waits.apart v other found held page'

/-- A thread that is asleep or woken behind a wakeup slept or was woken before. -/
theorem Agent.wake_place
    (agent : Agent)
    (place : Place)
    (isPlace : agent.wake.place = place) :
    agent.place = place ∨
      ∃ frame key,
        agent.place = .asleep frame key ∧ place = .woken frame key := by
  obtain ⟨was, held⟩ := agent
  cases was with
  | asleep frame key => exact .inr ⟨frame, key, rfl, isPlace.symm⟩
  | _ => exact .inl isPlace

/-- A wakeup changes nothing of the page that a call looks for. -/
theorem Agent.wake_wanted (agent : Agent) :
    agent.wake.place.wanted = agent.place.wanted := by
  obtain ⟨was, held⟩ := agent
  cases was with
  | _ => rfl

/-- A page is put back, and the threads on its wait queue are woken. -/
theorem WaitSound.released
    (waits : WaitSound sys)
    (page : sys.pool.pages frame = some pc)
    (place : (sys.agents t).place = .putting frame) :
    WaitSound
      (({ sys with
          pool :=
            { sys.pool.setPage frame
                { pc with refs := 2, busy := none, waiters := [] } with
              lru := sys.pool.lru ++ [frame] } }
        |>.wakeAll pc.waiters)
        |>.setPlace t .outside) where
  asleep := by
    intro v other wanted place'
    have actor : v ≠ t := by
      rintro rfl
      rw [CacheSystem.setPlace_self] at place'
      cases place'
    rw [CacheSystem.setPlace_of_ne _ _ actor] at place'
    simp only [CacheSystem.wakeAll] at place'
    by_cases member : v ∈ pc.waiters
    · rw [if_pos member] at place'
      obtain ⟨wanted', was⟩ := waits.waiting frame pc v page member
      rw [Agent.wake, was] at place'
      cases place'
    · rw [if_neg member] at place'
      obtain ⟨found, u, page', facts⟩ := waits.asleep v other wanted place'
      have same : other ≠ frame := by
        rintro rfl
        rw [page] at page'
        cases page'
        exact member facts.2.1
      exact
        ⟨found, u, (Pool.setPage_of_ne sys.pool _ same).trans page', facts⟩
  waiting := by
    intro other found v page' member
    by_cases same : other = frame
    · subst same
      have isNext :
          some { pc with refs := 2, busy := none, waiters := [] } =
            some found :=
        (Pool.setPage_self ..).symm.trans page'
      cases isNext
      cases member
    · have isOld : sys.pool.pages other = some found :=
        (Pool.setPage_of_ne sys.pool _ same).symm.trans page'
      obtain ⟨wanted, place'⟩ := waits.waiting other found v isOld member
      have actor : v ≠ t := by
        rintro rfl
        rw [place] at place'
        cases place'
      have notHere : v ∉ pc.waiters := by
        intro wrong
        obtain ⟨wanted', was⟩ := waits.waiting frame pc v page wrong
        rw [place'] at was
        cases was
        exact same rfl
      rw [CacheSystem.setPlace_of_ne _ _ actor]
      simp only [CacheSystem.wakeAll, if_neg notHere]
      exact ⟨wanted, place'⟩
  nodup := by
    intro other found page'
    by_cases same : other = frame
    · subst same
      have isNext :
          some { pc with refs := 2, busy := none, waiters := [] } =
            some found :=
        (Pool.setPage_self ..).symm.trans page'
      cases isNext
      exact List.nodup_nil
    · exact
        waits.nodup other found
          ((Pool.setPage_of_ne sys.pool _ same).symm.trans page')
  woken := by
    intro v other wanted place'
    have actor : v ≠ t := by
      rintro rfl
      rw [CacheSystem.setPlace_self] at place'
      cases place'
    rw [CacheSystem.setPlace_of_ne _ _ actor] at place'
    have there :
        ∃ found, sys.pool.pages other = some found ∧ found.key = wanted := by
      simp only [CacheSystem.wakeAll] at place'
      by_cases member : v ∈ pc.waiters
      · rw [if_pos member] at place'
        rcases Agent.wake_place _ _ place' with
          was | ⟨frame', key', was, isWoken⟩
        · exact waits.woken v other wanted was
        · cases isWoken
          obtain ⟨found, u, page', isKey, _⟩ :=
            waits.asleep v other wanted was
          exact ⟨found, page', isKey⟩
      · rw [if_neg member] at place'
        exact waits.woken v other wanted place'
    obtain ⟨found, page', isKey⟩ := there
    by_cases same : other = frame
    · subst same
      rw [page] at page'
      cases page'
      exact ⟨_, Pool.setPage_self .., isKey⟩
    · exact ⟨found, (Pool.setPage_of_ne sys.pool _ same).trans page', isKey⟩
  apart := by
    intro v other found held page'
    have old :
        ∃ was, sys.pool.pages other = some was ∧ found.key = was.key := by
      by_cases same : other = frame
      · subst same
        have isNext :
            some { pc with refs := 2, busy := none, waiters := [] } =
              some found :=
          (Pool.setPage_self ..).symm.trans page'
        cases isNext
        exact ⟨pc, page, rfl⟩
      · exact
          ⟨found, (Pool.setPage_of_ne sys.pool _ same).symm.trans page', rfl⟩
    obtain ⟨was, wasPage, keys⟩ := old
    by_cases actor : v = t
    · subst actor
      rw [CacheSystem.setPlace_self]
      exact (Option.some_ne_none _).symm
    · rw [CacheSystem.setPlace_of_ne _ _ actor] at held ⊢
      simp only [CacheSystem.wakeAll] at held ⊢
      rw [keys]
      by_cases member : v ∈ pc.waiters
      · rw [if_pos member] at held ⊢
        rw [(Agent.wake_sameKept _).held] at held
        rw [Agent.wake_wanted]
        exact waits.apart v other was held wasPage
      · rw [if_neg member] at held ⊢
        exact waits.apart v other was held wasPage

end Change

/-! ## What each step keeps of it -/

/--
No step leaves a page to nobody, no thread looks for a page that it has got, and
no page is freed while a thread that was woken for it has not come back to it.
-/
def WaitersStay (sys : CacheSystem) (action : CacheAction) : Prop :=
  PagesStay sys action ∧
    match action with
    | .get t key =>
        ∀ frame pc,
          frame ∈ (sys.agents t).held → sys.pool.pages frame = some pc →
            pc.key ≠ key
    | .step t =>
        ∀ frame vars,
          (sys.agents t).place = .shrinking .free frame vars →
            ∀ u key, (sys.agents u).place ≠ .woken frame key
    | _ => True

section Effects

variable {sys after : CacheSystem}
variable {action : CacheAction}
variable {t frame : Nat}

/-- The pages of one thread are not those that it looks for after it goes on. -/
theorem WaitSound.apart_of_goesOn
    {place : Place}
    {pc : PCache}
    {other : Nat}
    (waits : WaitSound sys)
    (goesOn : GoesOn (sys.agents t).place place)
    (held : other ∈ (sys.agents t).held)
    (page : sys.pool.pages other = some pc) :
    place.wanted ≠ some pc.key := by
  rcases goesOn.wanted with nothing | same
  · rw [nothing]
    exact (Option.some_ne_none _).symm
  · rw [same]
    exact waits.apart t other pc held page

/-- Every page that a thread got is in the pool. -/
theorem CacheSound.held_there
    (sound : CacheSound sys)
    (u : Nat)
    (held : frame ∈ (sys.agents u).held) :
    ∃ pc, sys.pool.pages frame = some pc := by
  obtain ⟨pc, page, _⟩ := sound.held_page held
  exact ⟨pc, page⟩

/-- A thread that is awake comes to another place, and the pool is as it was. -/
theorem WaitSound.goesAlone
    (sound : CacheSound sys)
    (waits : WaitSound sys)
    (wasAwake : (sys.agents t).place.asleepOn = none)
    (awake : (after.agents t).place.asleepOn = none)
    (taken : (after.agents t).place.wokenOn = none)
    (others : ∀ u, u ≠ t → after.agents u = sys.agents u)
    (pool : after.pool = sys.pool)
    (apart :
      ∀ other pc,
        other ∈ (after.agents t).held → sys.pool.pages other = some pc →
          (after.agents t).place.wanted ≠ some pc.key) :
    WaitSound after := by
  refine
    waits.goes t 0 wasAwake awake taken others
      (fun _ _ => pool ▸ rfl) ?_ ?_ ?_ ?_ (fun u => sound.held_there u) ?_
  · intro next page' pc page
    rw [pool, page] at page'
    cases page'
    rfl
  · intro next page'
    exact .inr ⟨next, pool ▸ page', rfl⟩
  · intro pc page _
    exact ⟨pc, pool ▸ page, rfl, rfl⟩
  · intro u key place _
    obtain ⟨pc, page, _⟩ := waits.woken u 0 key place
    exact ⟨pc, pool ▸ page⟩
  · rw [pool]
    exact apart

/-- A thread that is awake rewrites one page, but for its key and its waiters. -/
theorem WaitSound.goesOnPage
    {pc next : PCache}
    (sound : CacheSound sys)
    (waits : WaitSound sys)
    (page : sys.pool.pages frame = some pc)
    (pages :
      after.pool.pages = Function.update sys.pool.pages frame (some next))
    (key : next.key = pc.key)
    (waiters : next.waiters = pc.waiters)
    (busy : pc.waiters ≠ [] → next.busy = pc.busy)
    (goesOn : GoesOn (sys.agents t).place (after.agents t).place)
    (held : ∀ other ∈ (after.agents t).held, other ∈ (sys.agents t).held)
    (others : ∀ u, u ≠ t → after.agents u = sys.agents u) :
    WaitSound after := by
  have here : after.pool.pages frame = some next := by
    rw [pages, Function.update_self]
  have rest :
      ∀ other, other ≠ frame →
        after.pool.pages other = sys.pool.pages other := by
    intro other different
    rw [pages, Function.update_of_ne different]
  refine
    waits.goes t frame goesOn.wasAwake goesOn.awake goesOn.taken others rest ?_
      ?_ ?_
      (fun _ _ _ _ => ⟨next, here⟩) (fun u => sound.held_there u) ?_
  · intro found page' old oldPage
    rw [here] at page'
    rw [page] at oldPage
    cases page'
    cases oldPage
    exact key
  · intro found page'
    rw [here] at page'
    cases page'
    exact .inr ⟨pc, page, waiters⟩
  · intro old oldPage waiting
    rw [page] at oldPage
    cases oldPage
    exact ⟨next, here, busy waiting, waiters⟩
  · intro other found got page'
    have old :
        ∃ was, sys.pool.pages other = some was ∧ found.key = was.key := by
      by_cases same : other = frame
      · subst same
        rw [here] at page'
        cases page'
        exact ⟨pc, page, key⟩
      · exact ⟨found, (rest other same) ▸ page', rfl⟩
    obtain ⟨was, wasPage, keys⟩ := old
    rw [keys]
    exact waits.apart_of_goesOn goesOn (held other got) wasPage

/-- A thread that is awake registers a page, and looks for none by then. -/
theorem WaitSound.registered
    {pc : PCache}
    (sound : CacheSound sys)
    (waits : WaitSound sys)
    (fresh : sys.pool.pages frame = none)
    (waiters : pc.waiters = [])
    (awake : (sys.agents t).place.asleepOn = none) :
    WaitSound
      ({ sys with
          pool :=
            { sys.pool.setPage frame pc with tree := frame :: sys.pool.tree } }
        |>.setPlace t (.loading frame)) := by
  have absent :
      ∀ {found}, sys.pool.pages frame = some found → False := by
    intro found page
    rw [fresh] at page
    cases page
  refine
    waits.goes t frame awake
      (by rw [CacheSystem.setPlace_self]; rfl)
      (by rw [CacheSystem.setPlace_self]; rfl)
      (fun u different => CacheSystem.setPlace_of_ne _ _ different)
      (fun other different => Pool.setPage_of_ne sys.pool _ different)
      (fun next _ old page => (absent page).elim) ?_
      (fun old page => (absent page).elim) ?_ (fun u => sound.held_there u) ?_
  · intro next page
    have isNext : some pc = some next :=
      (Pool.setPage_self ..).symm.trans page
    cases isNext
    exact .inl waiters
  · intro u key place _
    obtain ⟨old, page, _⟩ := waits.woken u frame key place
    exact (absent page).elim
  · intro other found _ _
    rw [CacheSystem.setPlace_self]
    exact (Option.some_ne_none _).symm

/-- The shrinker frees a page that no thread waits for or was woken for. -/
theorem WaitSound.freed
    {place : Place}
    {pc : PCache}
    (sound : CacheSound sys)
    (waits : WaitSound sys)
    (page : sys.pool.pages frame = some pc)
    (nobody : pc.waiters = [])
    (taken : ∀ u key, (sys.agents u).place ≠ .woken frame key)
    (goesOn : GoesOn (sys.agents t).place place) :
    WaitSound
      ({ sys with pool := sys.pool.removePage frame }.setPlace t place) := by
  have gone :
      ∀ {found}, (sys.pool.removePage frame).pages frame = some found →
        False := by
    intro found page'
    rw [Pool.removePage_self] at page'
    cases page'
  refine
    waits.goes t frame goesOn.wasAwake
      (by rw [CacheSystem.setPlace_self]; exact goesOn.awake)
      (by rw [CacheSystem.setPlace_self]; exact goesOn.taken)
      (fun u different => CacheSystem.setPlace_of_ne _ _ different)
      (fun other different => Pool.removePage_of_ne sys.pool different)
      (fun next page' => (gone page').elim) (fun next page' => (gone page').elim)
      ?_ (fun u key woken _ => absurd woken (taken u key))
      (fun u => sound.held_there u) ?_
  · intro old oldPage waiting
    rw [page] at oldPage
    cases oldPage
    exact absurd nobody waiting
  · intro other found held page'
    rw [CacheSystem.setPlace_self] at held ⊢
    by_cases same : other = frame
    · subst same
      exact (gone page').elim
    · exact
        waits.apart_of_goesOn goesOn held
          ((Pool.removePage_of_ne sys.pool same).symm.trans page')

/-- Every effect keeps the threads that wait sound. -/
theorem WaitSound.of_effect
    (sound : CacheSound sys)
    (waits : WaitSound sys)
    (stays : WaitersStay sys action)
    (effect : Effect sys action after) :
    WaitSound after := by
  cases effect with
  | asked t key place =>
      refine
        waits.goesAlone (t := t) sound (place ▸ rfl)
          (by rw [CacheSystem.setPlace_self]; rfl)
          (by rw [CacheSystem.setPlace_self]; rfl)
          (fun u different => CacheSystem.setPlace_of_ne sys _ different) rfl ?_
      intro other pc held page same
      rw [CacheSystem.setPlace_self] at held same
      exact stays.2 other pc held page (Option.some.inj same).symm
  | moved action t place goesOn kept =>
      refine
        waits.goesAlone (t := t) sound goesOn.wasAwake
          (by rw [CacheSystem.setPlace_self]; exact goesOn.awake)
          (by rw [CacheSystem.setPlace_self]; exact goesOn.taken)
          (fun u different => CacheSystem.setPlace_of_ne sys _ different) rfl ?_
      intro other pc held page
      rw [CacheSystem.setPlace_self] at held ⊢
      exact waits.apart_of_goesOn goesOn held page
  | slept action t frame u key pc page busy awake wanted known kept =>
      have isKey : pc.key = key := by
        rcases known with same | woken
        · exact same
        · obtain ⟨found, page', same⟩ := waits.woken t frame key woken
          rw [page] at page'
          cases page'
          exact same
      have different : u ≠ t := by
        rintro rfl
        rcases sound.kept_cases page busy with ⟨held, _⟩ | inCall
        · exact waits.apart u frame pc held page (isKey ▸ wanted)
        · rw [kept] at inCall
          cases inCall
      exact waits.slept page busy different awake wanted isKey
  | took action t frame pc place page idle goesOn free kept =>
      refine
        waits.goesOnPage (t := t) sound page rfl rfl rfl ?_ ?_ ?_
          fun u different => CacheSystem.setPlace_of_ne _ _ different
      · intro waiting
        exact absurd (waits.nobody_of_idle page idle) waiting
      · rw [CacheSystem.setPlace_self]
        exact goesOn
      · rw [CacheSystem.setPlace_self]
        exact fun _ held => held
  | registered t frame key fresh alone place =>
      exact waits.registered sound fresh rfl (place ▸ rfl)
  | got t frame place =>
      refine
        waits.goesAlone (t := t) sound (place ▸ rfl)
          (by rw [CacheSystem.setAgent_self]; rfl)
          (by rw [CacheSystem.setAgent_self]; rfl)
          (fun u different => CacheSystem.setAgent_of_ne sys _ different) rfl ?_
      intro other pc _ _
      rw [CacheSystem.setAgent_self]
      exact (Option.some_ne_none _).symm
  | reworked action t frame pc clean dirty place page busy valid goesOn kept =>
      refine
        waits.goesOnPage (t := t) sound page rfl rfl rfl (fun _ => rfl) ?_ ?_
          fun u different => CacheSystem.setPlace_of_ne _ _ different
      · rw [CacheSystem.setPlace_self]
        exact goesOn
      · rw [CacheSystem.setPlace_self]
        exact fun _ held => held
  | dropped action t frame pc place page busy refs before goesOn kept =>
      refine
        waits.goesOnPage (t := t) sound page rfl rfl rfl (fun _ => rfl) ?_ ?_
          fun u different => CacheSystem.setAgent_of_ne _ _ different
      · rw [CacheSystem.setAgent_self]
        exact goesOn
      · rw [CacheSystem.setAgent_self]
        exact fun _ held => List.mem_of_mem_erase held
  | released t frame pc page busy place => exact waits.released page place
  | freed t frame vars pc place page busy nobody shrinks goesOn kept =>
      exact
        waits.freed sound page nobody (stays.2 frame vars shrinks) goesOn
  | left t frame key pc page place => exact waits.left page place

end Effects

/-! ## Steps that lose a thread that waits -/

section Lost

variable {sys after : CacheSystem}
variable {action : CacheAction}
variable {t frame : Nat}
variable {key : PageKey}
variable {pc : PCache}

/-- All threads but finitely many are outside of the calls. -/
def SomeOutside (sys : CacheSystem) : Prop :=
  ∃ bound, ∀ u, bound ≤ u → (sys.agents u).place = .outside

theorem Agent.wake_outside
    {agent : Agent}
    (outside : agent.place = .outside) :
    agent.wake.place = .outside := by
  rw [Agent.wake, outside]
  exact outside

theorem outside_of_update
    {u : Nat}
    {agents : Nat → Agent}
    {agent : Agent}
    (different : u ≠ t)
    (outside : (agents u).place = .outside) :
    (Function.update agents t agent u).place = .outside := by
  rw [Function.update_of_ne different]
  exact outside

/-- A step takes one thread at most away from outside of the calls. -/
theorem Effect.outside (effect : Effect sys action after) :
    ∃ t, ∀ u, u ≠ t → (sys.agents u).place = .outside →
      (after.agents u).place = .outside := by
  cases effect with
  | released t =>
      refine ⟨t, fun u different outside => outside_of_update different ?_⟩
      simp only [CacheSystem.wakeAll]
      split
      · exact Agent.wake_outside outside
      · exact outside
  | _ =>
      exact ⟨_, fun u different outside => outside_of_update different outside⟩

theorem SomeOutside.of_effect
    (some_outside : SomeOutside sys)
    (effect : Effect sys action after) :
    SomeOutside after := by
  obtain ⟨bound, outside⟩ := some_outside
  obtain ⟨t, stays⟩ := effect.outside
  refine ⟨max bound (t + 1), fun u large => ?_⟩
  have different : u ≠ t := by omega
  exact stays u different (outside u (by omega))

/-- A thread that finds a BUSY page under its key waits for it. -/
theorem find_busy
    {u : Nat}
    (sys : CacheSystem)
    (place : (sys.agents u).place = .finding key)
    (member : frame ∈ sys.pool.tree)
    (page : sys.pool.pages frame = some pc)
    (isKey : pc.key = key)
    (busy : pc.busy = some t)
    (only :
      ∀ other found,
        sys.pool.pages other = some found → found.key = key → other = frame) :
    cacheNext sys (.step u) =
      some
        ({ sys with
            pool :=
              sys.pool.setPage frame { pc with waiters := pc.waiters ++ [u] } }
          |>.setPlace u (.asleep frame key)) := by
  have found : sys.pool.findPage key = some frame := by
    cases search : sys.pool.findPage key with
    | none =>
        have absent := List.find?_eq_none.mp search frame member
        rw [page] at absent
        exact absurd (decide_eq_true isKey) absent
    | some other =>
        obtain ⟨was, page', isKey'⟩ := Pool.findPage_eq_some search
        rw [only other was page' isKey']
  rw [cacheNext, CacheSystem.runSection, place]
  simp only [CacheSystem.find, found, CacheSystem.enter, page,
    Pool.lookupFound, busy, Option.map_some, reduceCtorEq, false_and, if_false]

/-- A thread waits for a page that it keeps BUSY itself. -/
theorem not_waitersRight_of_own
    (place : (sys.agents t).place = .asleep frame key)
    (page : sys.pool.pages frame = some pc)
    (busy : pc.busy = some t) :
    ¬ WaitersRight sys :=
  fun right => right.notOwn t frame key pc place page busy

/-- A page that was abandoned keeps the threads waiting that look for it. -/
theorem Abandoned.not_waitersRight
    (left : Abandoned sys t frame pc)
    (outside : SomeOutside sys) :
    ∃ later final,
      Run (StepOf cacheNext) sys later final ∧ ¬ WaitersRight final := by
  obtain ⟨bound, free⟩ := outside
  obtain ⟨u, isFree, different⟩ :
      ∃ u, (sys.agents u).place = .outside ∧ u ≠ t :=
    ⟨max bound (t + 1), free _ (le_max_left ..), by omega⟩
  have asks :
      cacheNext sys (.get u pc.key) =
        some (sys.setPlace u (.finding pc.key)) := by
    rw [cacheNext, if_pos isFree]
  have waits :=
    find_busy (sys.setPlace u (.finding pc.key))
      (congrArg Agent.place (CacheSystem.setPlace_self ..)) left.member left.page
      rfl left.busy left.only
  refine
    ⟨[.get u pc.key, .step u], _, .snoc (.snoc .nil asks) waits, fun right => ?_⟩
  obtain ⟨owner, refs, busy, keeps⟩ :=
    right.served frame _ (Pool.setPage_self ..)
      (List.append_ne_nil_of_right_ne_nil _ (List.cons_ne_nil u []))
  rw [left.busy] at busy
  cases busy
  rw [CacheSystem.setPlace_of_ne _ _ (Ne.symm different)] at keeps
  rw [CacheSystem.setPlace_of_ne _ _ (Ne.symm different)] at keeps
  exact left.not_keeps keeps

/-- The page of a thread that asks for it again is one that it waits for itself. -/
theorem CacheSound.asks_again
    (sound : CacheSound sys)
    (held : frame ∈ (sys.agents t).held)
    (page : sys.pool.pages frame = some pc)
    (called : cacheNext sys (.get t pc.key) = some after) :
    ∃ final, cacheNext after (.step t) = some final ∧ ¬ WaitersRight final := by
  obtain ⟨found, page', busy, _⟩ := sound.held_page held
  rw [page] at page'
  cases page'
  rw [cacheNext] at called
  split at called
  case isTrue outside =>
    cases called
    have waits :=
      find_busy (sys.setPlace t (.finding pc.key))
        (congrArg Agent.place (CacheSystem.setPlace_self ..))
        (sound.pool.pages frame pc page).registered page rfl busy
        fun other found theirs keys =>
          sound.unique other frame found pc theirs page keys
    refine ⟨_, waits, ?_⟩
    exact
      not_waitersRight_of_own
        (congrArg Agent.place (CacheSystem.setPlace_self ..))
        (Pool.setPage_self ..) busy
  · cases called

/-- A thread that was woken for a page that was given up waits for itself. -/
theorem givenUp_waits
    {u : Nat}
    (place : (sys.agents u).place = .woken frame key)
    (page : sys.pool.pages frame = some pc)
    (idle : pc.busy = none)
    (notLru : frame ∉ sys.pool.lru) :
    ∃ final, cacheNext sys (.step u) = some final ∧ ¬ WaitersRight final := by
  refine
    ⟨{ sys with
        pool :=
          sys.pool.setPage frame
            { pc with busy := some u, waiters := pc.waiters ++ [u] } }
      |>.setPlace u (.asleep frame key), ?_, ?_⟩
  · rw [cacheNext, CacheSystem.runSection, place]
    simp only [CacheSystem.enter, page, Pool.lookupFound, idle, notLru,
      Option.map_some, and_false, if_false]
  · exact
      not_waitersRight_of_own
        (congrArg Agent.place (CacheSystem.setPlace_self ..))
        (Pool.setPage_self ..) rfl

/-- A thread that slept on a page is woken when the page is given up. -/
theorem woken_of_wakeAll
    {u : Nat}
    {waiters : List Nat}
    (sys : CacheSystem)
    (place : Place)
    (member : u ∈ waiters)
    (slept : (sys.agents u).place = .asleep frame key)
    (different : u ≠ t) :
    (((sys.wakeAll waiters).setPlace t place).agents u).place =
      .woken frame key := by
  rw [CacheSystem.setPlace_of_ne _ _ different]
  simp only [CacheSystem.wakeAll, if_pos member, Agent.wake, slept]

/-- A page is freed that a thread was woken for. -/
theorem CacheSound.freed_woken
    {vars : ShrinkVars}
    {u : Nat}
    (sound : CacheSound sys)
    (place : (sys.agents t).place = .shrinking .free frame vars)
    (nobody : sys.pool.waitersOf frame = [])
    (woken : (sys.agents u).place = .woken frame key)
    (called : cacheNext sys (.step t) = some after) :
    ¬ WaitersRight after := by
  obtain ⟨pc, page, busy, refs⟩ := sound.shrinking_page place rfl
  have nobody' : pc.waiters = [] := by
    simpa only [Pool.waitersOf, page] using nobody
  have different : u ≠ t := by
    rintro rfl
    rw [place] at woken
    cases woken
  rw [cacheNext, CacheSystem.runSection, place] at called
  simp only [CacheSystem.shrinkSection] at called
  split at called
  · cases called
  case h_2 pool dropped =>
    obtain ⟨found, own, ⟨_, more | waiting, _⟩ | ⟨wrong, _⟩⟩ :=
      sound.pool.decPcacheReference_cases dropped
    · rw [Pool.ownPage_of_busy page busy] at own
      cases own
      rw [refs] at more
      cases more
    · rw [Pool.ownPage_of_busy page busy] at own
      cases own
      exact absurd nobody' waiting
    · cases wrong
  case h_3 pool dropped =>
    obtain ⟨found, _, ⟨wrong, _⟩ | ⟨_, _, _, rfl⟩⟩ :=
      sound.pool.decPcacheReference_cases dropped
    · cases wrong
    cases called
    intro right
    obtain ⟨member, _⟩ :=
      right.stillThere u frame key
        (.inr ((congrArg Agent.place
          (CacheSystem.setPlace_of_ne _ _ different)).trans woken))
    exact sound.treeNodup.not_mem_erase member

/-- A step that the condition excludes leads to a thread that waits in vain. -/
theorem CacheSound.lost
    (sound : CacheSound sys)
    (waits : WaitSound sys)
    (outside : SomeOutside sys)
    (called : cacheNext sys action = some after)
    (leaves : ¬ WaitersStay sys action) :
    ∃ later final,
      Run (StepOf cacheNext) after later final ∧ ¬ WaitersRight final := by
  by_cases pages : PagesStay sys action
  · have leaves := not_and.mp leaves pages
    cases action with
    | get t key =>
        simp only [ne_eq, not_forall, not_not] at leaves
        obtain ⟨frame, pc, held, page, rfl⟩ := leaves
        obtain ⟨final, stepped, wrong⟩ := sound.asks_again held page called
        exact ⟨[.step t], final, .snoc .nil stepped, wrong⟩
    | step t =>
        simp only [ne_eq, not_forall, not_not] at leaves
        obtain ⟨frame, vars, place, u, key, woken⟩ := leaves
        have nobody : sys.pool.waitersOf frame = [] := by
          rw [PagesStay, place] at pages
          exact pages
        exact ⟨[], after, .nil, sound.freed_woken place nobody woken called⟩
    | _ => exact absurd trivial leaves
  · cases action with
    | shrink t most wbonly =>
        obtain ⟨writes, some_pages⟩ := not_or.mp pages
        rw [Bool.not_eq_false] at writes
        subst writes
        obtain ⟨middle, frame, pc, stepped, left, same⟩ :=
          sound.writesOnly_abandoned some_pages called
        obtain ⟨bound, free⟩ := outside
        have someOutside : SomeOutside middle := by
          refine ⟨max bound (t + 1), fun u large => ?_⟩
          rw [same u (by omega)]
          exact free u (by omega)
        obtain ⟨later, final, run, wrong⟩ :=
          left.not_waitersRight someOutside
        exact ⟨.step t :: later, final, run.cons stepped, wrong⟩
    | step t =>
        rw [PagesStay] at pages
        split at pages
        case h_1 frame vars place =>
          obtain ⟨pc, _, page, busy, waiting, rfl⟩ :=
            sound.givenUp place pages called
          obtain ⟨u, member⟩ := List.exists_mem_of_ne_nil _ waiting
          obtain ⟨key, slept⟩ := waits.waiting frame pc u page member
          have different : u ≠ t := by
            rintro rfl
            rw [place] at slept
            cases slept
          obtain ⟨final, stepped, wrong⟩ :=
            givenUp_waits
              (woken_of_wakeAll
                { sys with
                  pool :=
                    sys.pool.setPage frame
                      { pc with busy := none, waiters := [] } }
                _ member slept different)
              (Pool.setPage_self ..) rfl (sound.pool.own_notLru page busy)
          exact ⟨[.step u], final, .snoc .nil stepped, wrong⟩
        case h_2 frame vars place =>
          obtain ⟨pc, left, waiting⟩ :=
            sound.notFreed_abandoned place pages called
          refine ⟨[], after, .nil, fun right => ?_⟩
          obtain ⟨owner, refs, busy, keeps⟩ :=
            right.served frame pc left.page waiting
          rw [left.busy] at busy
          cases busy
          exact left.not_keeps keeps
        · exact absurd trivial pages
    | _ => exact absurd trivial pages

end Lost

/-- What holds of the pages and of the waiting threads in every state of a run. -/
theorem sound_of_run
    {sys : CacheSystem}
    {actions : List CacheAction}
    (run : Run (Guarded WaitersStay (StepOf cacheNext)) emptyCache actions sys) :
    CacheSound sys ∧ WaitSound sys ∧ SomeOutside sys := by
  let kept : CacheSystem → Prop :=
    fun sys => CacheSound sys ∧ WaitSound sys ∧ SomeOutside sys
  have all : kept sys := by
    refine run.invariant
      ⟨emptyCache_sound, emptyCache_waitSound, 0, fun _ _ => rfl⟩ ?_
    rintro source action target ⟨sound, waits, outside⟩ ⟨stays, called⟩
    have effect := sound.effect stays.1 called
    exact
      ⟨sound.of_effect effect, waits.of_effect sound stays effect,
        outside.of_effect effect⟩
  exact all

/--
As long as the steps meet the condition, a page with waiters is kept by a thread
that is to release it, no thread waits for itself, and a thread that is asleep or
woken finds its page in the pool.  A step that the condition excludes can be
followed by steps after which one of this is wrong.
-/
theorem waitersRight_of_run
    {sys : CacheSystem}
    {actions : List CacheAction}
    (run : Run (Guarded WaitersStay (StepOf cacheNext)) emptyCache actions sys) :
    WaitersRight sys ∧
      ∀ action after,
        cacheNext sys action = some after → ¬ WaitersStay sys action →
          ∃ later final,
            Run (StepOf cacheNext) after later final ∧ ¬ WaitersRight final := by
  obtain ⟨sound, waits, outside⟩ := sound_of_run run
  exact
    ⟨waits.waitersRight sound, fun action after called leaves =>
      sound.lost waits outside called leaves⟩

/-- Thread 1 gets a page, and thread 2 comes to wait for it. -/
def waitingThread : List CacheAction :=
  [.get 1 ⟨1, 0⟩, .step 1, .insert 1 5, .step 1, .get 2 ⟨1, 0⟩, .step 2]

theorem waitersRight_of_run_waiting :
    ∃ sys,
      Run (Guarded WaitersStay (StepOf cacheNext)) emptyCache waitingThread
          sys ∧
        (sys.agents 2).place = .asleep 5 ⟨1, 0⟩ ∧ WaitersRight sys := by
  obtain ⟨sys, run, asleep⟩ :
      ∃ sys,
        Run (Guarded WaitersStay (StepOf cacheNext)) emptyCache waitingThread
            sys ∧
          (sys.agents 2).place = .asleep 5 ⟨1, 0⟩ := by
    refine
      ⟨_, .cons ⟨?_, rfl⟩ (.cons ⟨?_, rfl⟩ (.cons ⟨?_, rfl⟩ (.cons ⟨?_, rfl⟩
        (.cons ⟨?_, rfl⟩ (.cons ⟨?_, rfl⟩ .nil))))), rfl⟩
    · refine ⟨trivial, fun frame pc held => ?_⟩
      cases held
    · refine ⟨trivial, fun frame vars place => ?_⟩
      cases place
    · exact ⟨trivial, trivial⟩
    · refine ⟨trivial, fun frame vars place => ?_⟩
      cases place
    · refine ⟨trivial, fun frame pc held => ?_⟩
      cases held
    · refine ⟨trivial, fun frame vars place => ?_⟩
      cases place
  exact ⟨sys, run, asleep, (waitersRight_of_run run).1⟩

end RiscvWorkshop.PageCache
