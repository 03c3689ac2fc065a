import Mathlib
import RiscvWorkshop.PageCache

namespace RiscvWorkshop.PageCache

/-!
# What threads do to the page cache pool

Threads take the lock of the pool in turn, and each section under the lock is
one step.  Whatever they do, the pages on the LRU queue are registered, unused
and valid, and a page that a thread keeps BUSY is not touched by the others,
but for its waiters.
-/

/-- A section, with the thread that runs it. -/
inductive PoolAction where
  | lookupFound (self frame : Nat)
  | lookupNew (self frame bdevid offset : Nat)
  | markDirty (self frame : Nat)
  | write (self frame : Nat)
  | put (self frame : Nat)
  | leave (self frame : Nat)
  | shrinkTake (self : Nat)
  | shrinkWrite (self frame : Nat)
  | shrinkDrop (self frame : Nat)
  | shrinkCheck (self frame : Nat)
  | shrinkFree (self frame : Nat)
deriving Repr, DecidableEq

namespace PoolAction

/-- The thread of a section. -/
def thread : PoolAction → Nat
  | lookupFound self _ => self
  | lookupNew self _ _ _ => self
  | markDirty self _ => self
  | write self _ => self
  | put self _ => self
  | leave self _ => self
  | shrinkTake self => self
  | shrinkWrite self _ => self
  | shrinkDrop self _ => self
  | shrinkCheck self _ => self
  | shrinkFree self _ => self

end PoolAction

/-- One section. -/
def poolNext (pool : Pool) : PoolAction → Option Pool
  | .lookupFound self frame => pool.lookupFound self frame
  | .lookupNew self frame bdevid offset =>
      pool.lookupNew self frame bdevid offset
  | .markDirty self frame => pool.pagecacheMarkDirty self frame
  | .write self frame => pool.pagecacheWrite self frame
  | .put self frame => pool.pagecachePut self frame
  | .leave self frame => pool.leaveWaiters self frame
  | .shrinkTake self => (pool.shrinkTake self).map (·.2)
  | .shrinkWrite self frame => pool.shrinkWrite self frame
  | .shrinkDrop self frame => pool.shrinkDrop self frame
  | .shrinkCheck self frame => (pool.shrinkCheck self frame).map (·.2)
  | .shrinkFree self frame => (pool.decPcacheReference self frame).map (·.2)

/-- A step of a thread other than one. -/
def OtherStep
    (self : Nat)
    (pool : Pool)
    (action : PoolAction)
    (after : Pool) : Prop :=
  action.thread ≠ self ∧ poolNext pool action = some after

/-- A pool without pages. -/
def emptyPool : Pool where
  pages := fun _ => none
  tree := []
  lru := []

/-- What other threads may make of a pool while a thread does not hold its lock. -/
def ByOthers
    (self : Nat)
    (left found : Pool) : Prop :=
  ∃ actions, Run (OtherStep self) left actions found

/-- A page cache as the pool wants it: registered, valid, with few references. -/
structure PageSound
    (pool : Pool)
    (frame : Nat)
    (pc : PCache) : Prop where
  registered : frame ∈ pool.tree
  valid : pc.clean = !pc.dirty
  used : 0 < pc.refs
  few : pc.refs ≤ 2

/-- The pages of a pool are sound, and those on the LRU queue are unused. -/
structure PoolSound (pool : Pool) : Prop where
  pages :
    ∀ frame pc, pool.pages frame = some pc → PageSound pool frame pc
  nodup : pool.lru.Nodup
  unused :
    ∀ frame ∈ pool.lru,
      ∃ pc, pool.pages frame = some pc ∧ pc.busy = none ∧ pc.refs = 2

/-- The pages that a thread keeps BUSY are as they were, but for their waiters. -/
def OwnKept
    (self : Nat)
    (before after : Pool) : Prop :=
  ∀ frame pc,
    before.pages frame = some pc → pc.busy = some self →
      ∃ waiters, after.pages frame = some { pc with waiters }

section Change

variable {pool after : Pool}
variable {self frame : Nat}
variable {pc next : PCache}

@[simp] theorem Pool.setPage_self
    (pool : Pool)
    (frame : Nat)
    (pc : PCache) :
    (pool.setPage frame pc).pages frame = some pc :=
  Function.update_self ..

theorem Pool.setPage_of_ne
    {other : Nat}
    (pool : Pool)
    (pc : PCache)
    (different : other ≠ frame) :
    (pool.setPage frame pc).pages other = pool.pages other :=
  Function.update_of_ne different ..

theorem Pool.removePage_self
    (pool : Pool)
    (frame : Nat) :
    (pool.removePage frame).pages frame = none :=
  Function.update_self ..

theorem Pool.removePage_of_ne
    {other : Nat}
    (pool : Pool)
    (different : other ≠ frame) :
    (pool.removePage frame).pages other = pool.pages other :=
  Function.update_of_ne different ..

theorem Pool.ownPage_eq_some
    (own : pool.ownPage self frame = some pc) :
    pool.pages frame = some pc ∧ pc.busy = some self := by
  obtain ⟨found, holds⟩ := Option.filter_eq_some_iff.mp own
  exact ⟨found, of_decide_eq_true holds⟩

/-- A page is off the LRU queue while a thread keeps it BUSY. -/
theorem PoolSound.own_notLru
    (sound : PoolSound pool)
    (found : pool.pages frame = some pc)
    (busy : pc.busy = some self) :
    frame ∉ pool.lru := by
  intro member
  obtain ⟨other, same, idle, _⟩ := sound.unused frame member
  rw [found] at same
  cases same
  rw [busy] at idle
  cases idle

/-- One page is changed, and the queue loses or gains nothing but that page. -/
theorem PoolSound.change
    (next : PCache)
    (sound : PoolSound pool)
    (page : pool.pages frame = some pc)
    (valid : next.clean = !next.dirty)
    (used : 0 < next.refs)
    (few : next.refs ≤ 2)
    (pages : after.pages = Function.update pool.pages frame (some next))
    (tree : after.tree = pool.tree)
    (nodup : after.lru.Nodup)
    (others : ∀ other ∈ after.lru, other ≠ frame → other ∈ pool.lru)
    (unused : frame ∈ after.lru → next.busy = none ∧ next.refs = 2) :
    PoolSound after := by
  refine
    { pages := fun other found holds => ?_
      nodup := nodup
      unused := fun other member => ?_ }
  · by_cases same : other = frame
    · subst same
      rw [pages, Function.update_self] at holds
      cases holds
      exact
        { registered := tree ▸ (sound.pages other pc page).registered
          valid := valid
          used := used
          few := few }
    · rw [pages, Function.update_of_ne same] at holds
      have old := sound.pages other found holds
      exact
        { registered := tree ▸ old.registered
          valid := old.valid
          used := old.used
          few := old.few }
  · by_cases same : other = frame
    · subst same
      exact ⟨next, pages ▸ Function.update_self .., unused member⟩
    · rw [pages, Function.update_of_ne same]
      exact sound.unused other (others other member same)

theorem OwnKept.trans
    {later : Pool}
    (first : OwnKept self pool after)
    (second : OwnKept self after later) :
    OwnKept self pool later := by
  intro frame pc page busy
  obtain ⟨waiters, middle⟩ := first frame pc page busy
  obtain ⟨others, last⟩ := second frame { pc with waiters } middle busy
  exact ⟨others, last⟩

/-- Another thread's page is left alone when one page is changed. -/
theorem ownKept_of_change
    (pages : after.pages = Function.update pool.pages frame (some next))
    (notOwn :
      ∀ found, pool.pages frame = some found → found.busy = some self →
        ∃ waiters, next = { found with waiters }) :
    OwnKept self pool after := by
  intro other found holds busy
  by_cases same : other = frame
  · subst same
    obtain ⟨waiters, rfl⟩ := notOwn found holds busy
    exact ⟨waiters, pages ▸ Function.update_self ..⟩
  · refine ⟨found.waiters, ?_⟩
    rw [pages, Function.update_of_ne same]
    exact holds

end Change

/-! ## Every section keeps the pool sound -/

/-- What a section of a thread leaves to the pool and to the other threads. -/
structure SectionKeeps
    (thread : Nat)
    (pool after : Pool) : Prop where
  sound : PoolSound after
  own : ∀ other, other ≠ thread → OwnKept other pool after

section Sections

variable {pool after : Pool}
variable {self frame : Nat}
variable {pc next : PCache}

theorem PoolSound.keeps_refl (sound : PoolSound pool) :
    SectionKeeps self pool pool where
  sound := sound
  own := fun _ _ _ found holds _ => ⟨found.waiters, holds⟩

/-- Work on a page that the thread keeps BUSY. -/
theorem PoolSound.keeps_own
    (sound : PoolSound pool)
    (own : pool.ownPage self frame = some pc)
    (valid : next.clean = !next.dirty)
    (used : 0 < next.refs)
    (few : next.refs ≤ 2) :
    SectionKeeps self pool (pool.setPage frame next) := by
  obtain ⟨page, held⟩ := Pool.ownPage_eq_some own
  have notLru := sound.own_notLru page held
  refine
    { sound :=
        sound.change next page valid used few rfl rfl sound.nodup
          (fun _ member _ => member) fun member => absurd member notLru
      own := fun other different => ?_ }
  refine ownKept_of_change rfl fun found holds theirs => ?_
  rw [page] at holds
  cases holds
  rw [held] at theirs
  exact absurd (Option.some.inj theirs).symm different

theorem PoolSound.lookupFound
    (sound : PoolSound pool)
    (called : pool.lookupFound self frame = some after) :
    SectionKeeps self pool after := by
  rw [Pool.lookupFound] at called
  split at called
  · cases called
  case h_2 pc page =>
    have old := sound.pages frame pc page
    split at called
    case h_1 holder busy =>
      -- the thread joins the waiters of a BUSY page
      cases called
      refine
        { sound :=
            sound.change { pc with waiters := pc.waiters ++ [self] } page
              old.valid old.used old.few rfl rfl sound.nodup
              (fun _ member _ => member) fun member =>
                absurd member (sound.own_notLru page busy)
          own := fun other _ => ?_ }
      refine ownKept_of_change rfl fun found holds _ => ?_
      rw [page] at holds
      cases holds
      exact ⟨_, rfl⟩
    case h_2 idle =>
      have nobody :
          ∀ other found, pool.pages frame = some found →
            found.busy ≠ some other := by
        intro other found holds
        rw [page] at holds
        cases holds
        rw [idle]
        exact nofun
      split at called
      case isTrue member =>
        split at called
        · cases called
        · cases called
          obtain ⟨_, same, _, count⟩ := sound.unused frame member
          rw [page] at same
          cases same
          refine
            { sound :=
                sound.change
                  { pc with busy := some self, refs := pc.refs - 1 + 1 } page
                  old.valid (Nat.succ_pos _) ?_ rfl rfl
                  (sound.nodup.erase frame)
                  (fun _ member _ => List.mem_of_mem_erase member)
                  fun member => absurd member sound.nodup.not_mem_erase
              own := fun other _ =>
                ownKept_of_change rfl fun found holds theirs =>
                  absurd theirs (nobody other found holds) }
          show pc.refs - 1 + 1 ≤ 2
          omega
      case isFalse notLru =>
        cases called
        exact
          { sound :=
              sound.change
                { pc with
                  busy := some self
                  waiters := pc.waiters ++ [self] }
                page old.valid old.used old.few rfl rfl sound.nodup
                (fun _ member _ => member) fun member =>
                  absurd member notLru
            own := fun other _ =>
              ownKept_of_change rfl fun found holds theirs =>
                absurd theirs (nobody other found holds) }

/-- A page frame of no page cache is not on the LRU queue. -/
theorem PoolSound.fresh_notLru
    (sound : PoolSound pool)
    (fresh : pool.pages frame = none) :
    frame ∉ pool.lru := by
  intro member
  obtain ⟨pc, page, _⟩ := sound.unused frame member
  rw [fresh] at page
  cases page

/-- A new page cache is registered. -/
theorem PoolSound.register
    (sound : PoolSound pool)
    (fresh : pool.pages frame = none)
    (valid : pc.clean = !pc.dirty)
    (used : 0 < pc.refs)
    (few : pc.refs ≤ 2) :
    PoolSound { pool.setPage frame pc with tree := frame :: pool.tree } where
  pages := by
    intro other found holds
    by_cases same : other = frame
    · subst same
      rw [Pool.setPage_self] at holds
      cases holds
      exact
        { registered := List.mem_cons_self
          valid := valid
          used := used
          few := few }
    · rw [Pool.setPage_of_ne pool _ same] at holds
      have old := sound.pages other found holds
      exact
        { registered := List.mem_cons_of_mem frame old.registered
          valid := old.valid
          used := old.used
          few := old.few }
  nodup := sound.nodup
  unused := by
    intro other member
    have different : other ≠ frame :=
      fun same => sound.fresh_notLru fresh (same ▸ member)
    rw [Pool.setPage_of_ne pool _ different]
    exact sound.unused other member

/-- A page cache that is not on the LRU queue is removed. -/
theorem PoolSound.removePage
    (sound : PoolSound pool)
    (notLru : frame ∉ pool.lru) :
    PoolSound (pool.removePage frame) where
  pages := by
    intro other found holds
    have different : other ≠ frame := by
      rintro rfl
      rw [Pool.removePage_self] at holds
      cases holds
    rw [Pool.removePage_of_ne pool different] at holds
    have old := sound.pages other found holds
    exact
      { registered := (List.mem_erase_of_ne different).mpr old.registered
        valid := old.valid
        used := old.used
        few := old.few }
  nodup := sound.nodup
  unused := by
    intro other member
    have different : other ≠ frame := fun same => notLru (same ▸ member)
    rw [Pool.removePage_of_ne pool different]
    exact sound.unused other member

theorem PoolSound.lookupNew
    {bdevid offset : Nat}
    (sound : PoolSound pool)
    (called : pool.lookupNew self frame bdevid offset = some after) :
    SectionKeeps self pool after := by
  rw [Pool.lookupNew] at called
  split at called
  · cases called
  case isFalse unused =>
    split at called
    · cases called
      exact sound.keeps_refl
    · cases called
      have fresh : pool.pages frame = none := by
        simpa using unused
      refine
        { sound := sound.register fresh rfl Nat.two_pos le_rfl
          own := fun other different found pc holds theirs => ?_ }
      have different : found ≠ frame := by
        rintro rfl
        rw [fresh] at holds
        cases holds
      refine ⟨pc.waiters, ?_⟩
      rw [Pool.setPage_of_ne pool _ different]
      exact holds

/-- The last reference goes, or one reference is left. -/
theorem PoolSound.decPcacheReference_cases
    {last : Bool}
    (sound : PoolSound pool)
    (called : pool.decPcacheReference self frame = some (last, after)) :
    ∃ pc,
      pool.ownPage self frame = some pc ∧
        ((last = false ∧
            (pc.refs = 2 ∨ pc.waiters ≠ []) ∧
              after = pool.setPage frame { pc with refs := 1 }) ∨
          (last = true ∧ pc.refs = 1 ∧ pc.waiters = [] ∧
            after = pool.removePage frame)) := by
  rw [Pool.decPcacheReference] at called
  split at called
  · cases called
  case h_2 pc own =>
    have few := (sound.pages frame pc (Pool.ownPage_eq_some own).1).few
    refine ⟨pc, own, ?_⟩
    split at called
    · cases called
    case isFalse positive =>
      split at called
      case isTrue more =>
        cases called
        have two : pc.refs = 2 := by omega
        refine .inl ⟨rfl, .inl two, ?_⟩
        rw [two]
      case isFalse one =>
        split at called
        case isTrue waiting =>
          cases called
          exact .inl ⟨rfl, .inr waiting, rfl⟩
        case isFalse alone =>
          split at called
          · cases called
          · cases called
            exact .inr ⟨rfl, by omega, not_not.mp alone, rfl⟩

theorem PoolSound.decPcacheReference
    {last : Bool}
    (sound : PoolSound pool)
    (called : pool.decPcacheReference self frame = some (last, after)) :
    SectionKeeps self pool after := by
  obtain ⟨pc, own, ⟨_, _, rfl⟩ | ⟨_, _, _, rfl⟩⟩ :=
    sound.decPcacheReference_cases called
  · have valid := (sound.pages frame pc (Pool.ownPage_eq_some own).1).valid
    exact sound.keeps_own own valid Nat.one_pos Nat.one_le_ofNat
  · obtain ⟨page, held⟩ := Pool.ownPage_eq_some own
    refine
      { sound := sound.removePage (sound.own_notLru page held)
        own := fun other different found theirs holds busy => ?_ }
    have elsewhere : found ≠ frame := by
      rintro rfl
      rw [page] at holds
      cases holds
      rw [held] at busy
      exact different (Option.some.inj busy).symm
    refine ⟨theirs.waiters, ?_⟩
    rw [Pool.removePage_of_ne pool elsewhere]
    exact holds

theorem PoolSound.pagecachePut
    (sound : PoolSound pool)
    (called : pool.pagecachePut self frame = some after) :
    SectionKeeps self pool after := by
  rw [Pool.pagecachePut] at called
  split at called
  · cases called
  case h_2 dropped =>
    cases called
    exact sound.decPcacheReference dropped
  case h_3 dropped =>
    obtain ⟨pc, own, ⟨_, _, rfl⟩ | ⟨wrong, _⟩⟩ :=
      sound.decPcacheReference_cases dropped
    · obtain ⟨page, held⟩ := Pool.ownPage_eq_some own
      have notLru := sound.own_notLru page held
      have valid := (sound.pages frame pc page).valid
      simp only [Pool.setPage_self, if_neg Nat.one_ne_zero,
        Option.some.injEq] at called
      subst called
      refine
        { sound :=
            sound.change { pc with refs := 2, busy := none, waiters := [] }
              page valid Nat.two_pos le_rfl ?_ rfl ?_ ?_ fun _ => ⟨rfl, rfl⟩
          own := fun other different => ?_ }
      · exact Function.update_idem ..
      · exact List.nodup_append'.mpr
          ⟨sound.nodup, List.nodup_singleton frame,
            List.disjoint_singleton.mpr notLru⟩
      · intro other member different
        exact (List.mem_append.mp member).resolve_right fun last =>
          different (List.mem_singleton.mp last)
      · refine
          ownKept_of_change
            (Function.update_idem ..) fun found holds theirs => ?_
        rw [page] at holds
        cases holds
        rw [held] at theirs
        exact absurd (Option.some.inj theirs).symm different
    · cases wrong

theorem PoolSound.pagecacheWrite
    (sound : PoolSound pool)
    (called : pool.pagecacheWrite self frame = some after) :
    SectionKeeps self pool after := by
  obtain ⟨pc, own, rfl⟩ := Option.map_eq_some_iff.mp called
  have old := sound.pages frame pc (Pool.ownPage_eq_some own).1
  exact sound.keeps_own own rfl old.used old.few

theorem PoolSound.pagecacheMarkDirty
    (sound : PoolSound pool)
    (called : pool.pagecacheMarkDirty self frame = some after) :
    SectionKeeps self pool after := by
  obtain ⟨pc, own, rfl⟩ := Option.map_eq_some_iff.mp called
  have old := sound.pages frame pc (Pool.ownPage_eq_some own).1
  exact sound.keeps_own own rfl old.used old.few

/-- A waiter that leaves changes no page but in its waiters. -/
theorem PoolSound.leaveWaiters
    (sound : PoolSound pool)
    (called : pool.leaveWaiters self frame = some after) :
    SectionKeeps self pool after := by
  obtain ⟨pc, page, rfl⟩ := Option.map_eq_some_iff.mp called
  have old := sound.pages frame pc page
  refine
    { sound :=
        sound.change { pc with waiters := pc.waiters.erase self } page
          old.valid old.used old.few rfl rfl sound.nodup
          (fun _ member _ => member) fun member => ?_
      own := fun other _ => ?_ }
  · obtain ⟨found, same, facts⟩ := sound.unused frame member
    rw [page] at same
    cases same
    exact facts
  · refine ownKept_of_change rfl fun found holds _ => ?_
    rw [page] at holds
    cases holds
    exact ⟨_, rfl⟩

/-! ### The sections of the shrinker -/

/-- From a sound pool with pages on its LRU queue the first is taken. -/
theorem PoolSound.shrinkTake_eq
    {rest : List Nat}
    (self : Nat)
    (sound : PoolSound pool)
    (lru : pool.lru = frame :: rest) :
    ∃ pc,
      pool.pages frame = some pc ∧ pc.busy = none ∧ pc.refs = 2 ∧
        pool.shrinkTake self =
          some
            (frame,
              { pool.setPage frame { pc with busy := some self } with
                lru := rest }) := by
  obtain ⟨pc, page, idle, count⟩ :=
    sound.unused frame (lru ▸ List.mem_cons_self)
  have enabled :
      ¬ (pc.busy ≠ none ∨ pc.refs = 0 ∨ pc.refs + 1 - 1 = 0) := by
    rw [idle, count]
    decide
  refine ⟨pc, page, idle, count, ?_⟩
  rw [Pool.shrinkTake, lru]
  simp only [page]
  rw [if_neg enabled]
  rfl

theorem PoolSound.shrinkTake
    (sound : PoolSound pool)
    (called : pool.shrinkTake self = some (frame, after)) :
    SectionKeeps self pool after := by
  cases lru : pool.lru with
  | nil =>
      simp [Pool.shrinkTake, lru] at called
  | cons first rest =>
      obtain ⟨pc, page, idle, count, taken⟩ :=
        sound.shrinkTake_eq self lru
      rw [taken] at called
      cases called
      have nodup := sound.nodup
      rw [lru, List.nodup_cons] at nodup
      have old := sound.pages frame pc page
      refine
        { sound :=
            sound.change { pc with busy := some self } page old.valid old.used
              old.few rfl rfl nodup.2
              (fun _ member _ => lru ▸ List.mem_cons_of_mem frame member)
              fun member => absurd member nodup.1
          own := fun other _ => ?_ }
      refine ownKept_of_change rfl fun found holds theirs => ?_
      rw [page] at holds
      cases holds
      rw [idle] at theirs
      cases theirs

theorem PoolSound.shrinkWrite
    (sound : PoolSound pool)
    (called : pool.shrinkWrite self frame = some after) :
    SectionKeeps self pool after := by
  rw [Pool.shrinkWrite] at called
  split at called
  · cases called
  · split at called
    · exact sound.pagecacheWrite called
    · cases called
      exact sound.keeps_refl

theorem PoolSound.shrinkDrop
    (sound : PoolSound pool)
    (called : pool.shrinkDrop self frame = some after) :
    SectionKeeps self pool after := by
  rw [Pool.shrinkDrop] at called
  split at called
  · cases called
  case h_2 pc own =>
    have old := sound.pages frame pc (Pool.ownPage_eq_some own).1
    have few := old.few
    split at called
    · cases called
    case isFalse more =>
      cases called
      refine sound.keeps_own own old.valid ?_ ?_
      · show 0 < pc.refs - 1
        omega
      · show pc.refs - 1 ≤ 2
        omega

theorem PoolSound.shrinkCheck
    {waiting : Bool}
    (sound : PoolSound pool)
    (called : pool.shrinkCheck self frame = some (waiting, after)) :
    SectionKeeps self pool after := by
  rw [Pool.shrinkCheck] at called
  split at called
  · cases called
  case h_2 pc own =>
    have old := sound.pages frame pc (Pool.ownPage_eq_some own).1
    split at called
    · cases called
      exact sound.keeps_refl
    · cases called
      exact sound.keeps_own own old.valid old.used old.few

/-! ## Runs of the other threads -/

/-- Every section keeps the pool sound and the pages of the other threads. -/
theorem PoolSound.step
    {action : PoolAction}
    (sound : PoolSound pool)
    (called : poolNext pool action = some after) :
    SectionKeeps action.thread pool after := by
  cases action with
  | lookupFound => exact sound.lookupFound called
  | lookupNew => exact sound.lookupNew called
  | markDirty => exact sound.pagecacheMarkDirty called
  | write => exact sound.pagecacheWrite called
  | put => exact sound.pagecachePut called
  | leave => exact sound.leaveWaiters called
  | shrinkTake =>
      obtain ⟨⟨frame, _⟩, taken, rfl⟩ := Option.map_eq_some_iff.mp called
      exact sound.shrinkTake taken
  | shrinkWrite => exact sound.shrinkWrite called
  | shrinkDrop => exact sound.shrinkDrop called
  | shrinkCheck =>
      obtain ⟨⟨waiting, _⟩, checked, rfl⟩ := Option.map_eq_some_iff.mp called
      exact sound.shrinkCheck checked
  | shrinkFree =>
      obtain ⟨⟨last, _⟩, freed, rfl⟩ := Option.map_eq_some_iff.mp called
      exact sound.decPcacheReference freed

theorem emptyPool_sound : PoolSound emptyPool where
  pages := nofun
  nodup := List.nodup_nil
  unused := nofun

/-- Whatever threads do to a pool that was empty, it is sound. -/
theorem poolSound_of_run
    {actions : List PoolAction}
    (run : Run (StepOf poolNext) emptyPool actions pool) :
    PoolSound pool :=
  run.invariant emptyPool_sound fun sound called =>
    (sound.step called).sound

/-- The other threads keep the pool sound, and the pages of a thread. -/
theorem PoolSound.byOthers
    {found : Pool}
    (sound : PoolSound pool)
    (others : ByOthers self pool found) :
    PoolSound found ∧ OwnKept self pool found := by
  obtain ⟨actions, run⟩ := others
  let kept : Pool → Prop :=
    fun later => PoolSound later ∧ OwnKept self pool later
  have all : kept found := by
    refine run.invariant
      ⟨sound, fun frame pc page _ => ⟨pc.waiters, page⟩⟩ ?_
    rintro source action target ⟨sourceSound, sourceKept⟩ ⟨other, called⟩
    have keeps := sourceSound.step called
    exact ⟨keeps.sound, sourceKept.trans (keeps.own self other.symm)⟩
  exact all

end Sections

end RiscvWorkshop.PageCache
