import Mathlib
import RiscvWorkshop.VmMapRollback

namespace RiscvWorkshop.Vm

open Pgtbl

/-!
# Mapping user pages

`vm_map_userpage` takes a cluster from the pool for each page of a range, and
rolls the range back when a step fails.  When the pool has no cluster the
failure is undone.  When `hal_pgtbl_enter` fails, the cluster of that page is
owned by neither the table nor the rollback, and it is lost.
-/

variable {setup : PgtblSetup}
variable {pool : PagePool}
variable {before : PgtblState}
variable {state after : VmState}
variable {pages : List MappedPage}
variable {prot flags target vaddr : Nat}
variable {result : Except Errno Unit}

/-- An address that is aligned in the eyes of the code is a multiple. -/
theorem targetSize_dvd_of_aligned
    (bound : target ≤ 2)
    (isAligned : addrNotAligned vaddr (targetSize target) = false) :
    targetSize target ∣ vaddr := by
  obtain ⟨exponent, small, size⟩ :
      ∃ exponent, exponent ≤ 30 ∧ targetSize target = 2 ^ exponent := by
    interval_cases target
    · exact ⟨30, by decide, by decide⟩
    · exact ⟨21, by decide, by decide⟩
    · exact ⟨12, by decide, by decide⟩
  have mask :
      (2 ^ exponent + (addressSpace - 1)) % addressSpace =
        2 ^ exponent - 1 := by
    have positive := Nat.two_pow_pos exponent
    have power : 2 ^ exponent ≤ 2 ^ 30 :=
      Nat.pow_le_pow_right (by decide) small
    rw [show addressSpace = 2 ^ 64 from rfl]
    omega
  rw [addrNotAligned, size, mask, Nat.and_two_pow_sub_one_eq_mod] at isAligned
  rw [size]
  exact Nat.dvd_of_mod_eq_zero (by simpa using isAligned)

/-! ## The loop over the pages -/

/-- A range of user pages of one size: own addresses below no larger leaf. -/
structure UserRange
    (setup : PgtblSetup)
    (before : PgtblState)
    (prot target staVaddr endVaddr : Nat) : Prop where
  targetBound : target ≤ 2
  notLargest : target ≠ 0
  asked : prot &&& vmProtMask ≠ 0
  inSpace : endVaddr + targetSize target ≤ addressSpace
  own :
    ∀ vaddr, staVaddr ≤ vaddr → vaddr < endVaddr → setup.OwnAddr vaddr
  translated :
    ∀ vaddr, staVaddr ≤ vaddr → vaddr < endVaddr → InSv39 vaddr
  noLarger :
    ∀ vaddr, staVaddr ≤ vaddr → vaddr < endVaddr →
      ∀ level < target, ∀ entry, ¬ LeafAt setup before vaddr level entry

namespace MappedTo

variable {staVaddr endVaddr mapVaddr loose : Nat}

/-- What mapping the next page can do. -/
theorem vmMapCommon_cases
    {result : Except Errno Unit}
    (mapped : MappedTo setup before true staVaddr 0 state pages mapVaddr)
    (range : UserRange setup before prot target staVaddr endVaddr)
    (more : mapVaddr < endVaddr)
    (poolAligned : pool.Aligned)
    (sound : TreeSound setup before)
    (stepped :
      vmMapCommon setup pool state mapVaddr prot flags (targetSize target) =
        some (result, after)) :
    (result = .error .enomem ∧ after = state) ∨
      (result = .error .ebusy ∧
        EntryBusy setup before mapVaddr target ∧
        MappedTo setup before true staVaddr (2 ^ (9 * (2 - target))) after pages
          mapVaddr) ∨
      ∃ page,
        page.target = target ∧ page.vaddr = mapVaddr ∧ result = .ok () ∧
          MappedTo setup before true staVaddr 0 after (pages ++ [page])
            (mapVaddr + targetSize target) := by
  have start := mapped.start
  have own := range.own mapVaddr start more
  have inSv39 := range.translated mapVaddr start more
  have inSpace := range.inSpace
  unfold vmMapCommon at stepped
  split_ifs at stepped with unaligned
  have vaddrDvd :=
    targetSize_dvd_of_aligned range.targetBound (Bool.not_eq_true _ ▸ unaligned)
  have apart := mapped.apart range.targetBound vaddrDvd inSv39
  rw [pgifCalcPageOrder_targetSize range.targetBound range.notLargest]
    at stepped
  simp only at stepped
  cases taken : pgifGetFreePageCluster pool state (9 * (2 - target)) with
  | none =>
      rw [taken] at stepped
      cases stepped
      exact .inl ⟨rfl, rfl⟩
  | some cluster =>
      obtain ⟨pfn, middle⟩ := cluster
      obtain ⟨head, dequeued, same⟩ := Option.map_eq_some_iff.mp taken
      have headIs : head = pfn := congrArg Prod.fst same
      rw [headIs] at dequeued
      obtain ⟨_, held, disjoint⟩ := mapped.holding.take taken
      have taking := mapped.take taken
      let page : MappedPage :=
        { vaddr := mapVaddr
          frame := pfn
          prot := prot
          flags := flags
          target := target }
      have pageSound : page.Sound :=
        { targetBound := range.targetBound
          vaddr_dvd := vaddrDvd
          frame_dvd := poolAligned dequeued
          inSpace := by
            show mapVaddr + targetSize target < addressSpace
            omega
          frameBound := held.head_apart.2.2
          asked := range.asked }
      have noLarger :=
        taking.noLarger apart (range.noLarger mapVaddr start more)
      rw [taken] at stepped
      simp only at stepped
      cases entered : halPgtblEnter setup middle.pgtbl page.request with
      | none =>
          simp only [page, MappedPage.request] at entered
          rw [entered] at stepped
          cases stepped
      | some outcome =>
          obtain ⟨pageResult, pgtbl⟩ := outcome
          have cases :=
            pageSound.enter_cases taking.holding.sound noLarger entered
          simp only [page, MappedPage.request] at entered
          rw [entered] at stepped
          rcases cases with ⟨rfl, run⟩ | ⟨rfl, busy, visited, rfl⟩
          · simp only at stepped
            split_ifs at stepped
            cases stepped
            exact .inr (.inr ⟨page, rfl, rfl, rfl,
              taking.map pageSound own inSv39 noLarger
                (fun _ => ⟨held, disjoint rfl⟩) run⟩)
          · cases stepped
            exact .inr (.inl ⟨rfl, taking.busy_before own apart sound busy,
              taking.visited visited⟩)

/-- Where the loop stands when a step fails. -/
theorem vmMapLoop_failed
    {rounds stop : Nat}
    {code : Errno}
    (mapped : MappedTo setup before true staVaddr 0 state pages mapVaddr)
    (consecutive : Consecutive staVaddr pages mapVaddr)
    (uniform : ∀ page ∈ pages, page.target = target)
    (range : UserRange setup before prot target staVaddr endVaddr)
    (poolAligned : pool.Aligned)
    (sound : TreeSound setup before)
    (looped :
      vmMapLoop setup pool prot flags (targetSize target) endVaddr rounds
        mapVaddr state = some (.error code, stop, after)) :
    ∃ pages loose,
      MappedTo setup before true staVaddr loose after pages stop ∧
        Consecutive staVaddr pages stop ∧
        (∀ page ∈ pages, page.target = target) ∧
        ((code = .enomem ∧ loose = 0) ∨
          (code = .ebusy ∧ loose = 2 ^ (9 * (2 - target)) ∧
            EntryBusy setup before stop target)) := by
  induction rounds generalizing state pages mapVaddr with
  | zero =>
      cases looped
  | succ rounds inductionHypothesis =>
      by_cases more : endVaddr > mapVaddr
      · rw [vmMapLoop, if_pos more] at looped
        cases stepped :
            vmMapCommon setup pool state mapVaddr prot flags
              (targetSize target) with
        | none =>
            rw [stepped] at looped
            cases looped
        | some outcome =>
            obtain ⟨pageResult, middle⟩ := outcome
            rw [stepped] at looped
            rcases mapped.vmMapCommon_cases range more poolAligned sound
              stepped with
              ⟨rfl, rfl⟩ | ⟨rfl, busy, failed⟩ | ⟨page, size, place, rfl, next⟩
            · cases looped
              exact ⟨pages, 0, mapped, consecutive, uniform, .inl ⟨rfl, rfl⟩⟩
            · cases looped
              exact ⟨pages, _, failed, consecutive, uniform,
                .inr ⟨rfl, rfl, busy⟩⟩
            · simp only at looped
              rw [Nat.mod_eq_of_lt next.inSpace] at looped
              refine inductionHypothesis next
                (size ▸ consecutive.append place) (fun other member => ?_)
                looped
              rcases List.mem_append.mp member with earlier | isPage
              · exact uniform other earlier
              · exact List.mem_singleton.mp isPage ▸ size
      · rw [vmMapLoop, if_neg more] at looped
        cases looped

end MappedTo

/-! ## The call as a whole -/

/--
The tables of the pages in a range are all present, or nothing is mapped yet
and the range lies in one lowest table.
-/
inductive RangeReady
    (setup : PgtblSetup)
    (before : PgtblState)
    (target staVaddr stop : Nat) : Prop where
  | present
      (walks :
        ∀ vaddr, staVaddr ≤ vaddr → vaddr < stop →
          ∃ table, tableAt setup before vaddr target = some table)
  | single
      (unmapped :
        ∀ vaddr, setup.OwnAddr vaddr →
          ∀ level entry, ¬ LeafAt setup before vaddr level entry)
      (together :
        ∀ first second,
          staVaddr ≤ first → first < stop →
          staVaddr ≤ second → second < stop →
            ∀ depth < target, digit first depth = digit second depth)

theorem RangeReady.tablesHeld
    {staVaddr stop loose : Nat}
    (ready : RangeReady setup before target staVaddr stop)
    (mapped : MappedTo setup before true staVaddr loose state pages stop)
    (uniform : ∀ page ∈ pages, page.target = target) :
    TablesHeld setup before state.pgtbl pages := by
  have inside :
      ∀ page ∈ pages, staVaddr ≤ page.vaddr ∧ page.vaddr < stop := by
    intro page member
    obtain ⟨lower, upper⟩ := mapped.bounds page member
    have positive := targetSize_pos page.target
    exact ⟨lower, by omega⟩
  cases ready with
  | present walks =>
      refine .present (fun page member => ?_) mapped.grown.entries
      rw [uniform page member]
      exact walks _ (inside page member).1 (inside page member).2
  | single unmapped together =>
      refine .single unmapped fun first firstMember second secondMember => ?_
      rw [uniform first firstMember, uniform second secondMember]
      exact ⟨rfl, together _ _ (inside first firstMember).1
        (inside first firstMember).2 (inside second secondMember).1
        (inside second secondMember).2⟩

/-- The call fails before it maps anything: at once, or at the first page. -/
def FailsFirst
    (pool : PagePool)
    (locked : Except Errno Unit)
    (state : VmState)
    (vaddr pgsize size : Nat) : Prop :=
  pageRoundup ((vaddr + size) % addressSpace) < truncateAlign vaddr pageSize ∨
    (∃ code, locked = .error code) ∨
    pgifCalcPageOrder pgsize = none ∨
    ∃ order,
      pgifCalcPageOrder pgsize = some order ∧
        pool.dequeue state.pgtbl.free order = none

/-- Rolling an empty range back changes nothing. -/
theorem vmUnmapCommon_empty
    {locals : UnmapLocals}
    {rounds staVaddr : Nat}
    (staAligned : pageSize ∣ staVaddr)
    (inSpace : staVaddr < addressSpace)
    (unmapped :
      vmUnmapCommon setup locals rounds state staVaddr flags
        ((staVaddr + (addressSpace - staVaddr)) % addressSpace) true =
          some (result, after)) :
    after = state := by
  have size : pageSize = 4096 := rfl
  have space : addressSpace = 2 ^ 64 := rfl
  have empty : (staVaddr + (addressSpace - staVaddr)) % addressSpace = 0 := by
    rw [Nat.add_sub_cancel' inSpace.le, Nat.mod_self]
  have finish : pageRoundup ((staVaddr + 0) % addressSpace) = staVaddr := by
    rw [size] at staAligned
    rw [Nat.add_zero, Nat.mod_eq_of_lt inSpace, pageRoundup,
      Nat.mod_eq_of_lt (by omega), truncateAlign, size]
    omega
  have begin' : truncateAlign staVaddr pageSize = staVaddr :=
    Nat.div_mul_cancel staAligned
  rw [vmUnmapCommon, empty, finish, begin'] at unmapped
  cases rounds with
  | zero =>
      cases unmapped
  | succ rounds =>
      rw [vmUnmapLoop, if_neg (lt_irrefl _)] at unmapped
      cases unmapped
      rfl

/-- A call that fails before it maps anything changes nothing. -/
theorem vmMapUserpage_failsFirst
    {locals : UnmapLocals}
    {locked : Except Errno Unit}
    {rounds pgsize size : Nat}
    {code : Errno}
    (first : FailsFirst pool locked state vaddr pgsize size)
    (inSpace : vaddr < addressSpace)
    (returned :
      vmMapUserpage setup pool locals locked rounds state vaddr prot flags
        pgsize size = some (.error code, after)) :
    after = state := by
  have staAligned : pageSize ∣ truncateAlign vaddr pageSize :=
    Dvd.intro_left _ rfl
  have staSpace : truncateAlign vaddr pageSize < addressSpace :=
    lt_of_le_of_lt (Nat.div_mul_le_self ..) inSpace
  unfold vmMapUserpage at returned
  by_cases askedKernel : flags &&& notUserFlags ≠ 0
  · rw [if_pos askedKernel] at returned
    cases returned
  · rw [if_neg askedKernel] at returned
    simp only at returned
    by_cases backward :
        pageRoundup ((vaddr + size) % addressSpace) <
          truncateAlign vaddr pageSize
    · rw [if_pos backward] at returned
      cases returned
      rfl
    · rw [if_neg backward] at returned
      cases locked with
      | error =>
          cases returned
          rfl
      | ok =>
          cases rounds with
          | zero =>
              cases returned
          | succ rounds =>
              rw [vmMapLoop] at returned
              by_cases more :
                  pageRoundup ((vaddr + size) % addressSpace) >
                    truncateAlign vaddr pageSize
              · rw [if_pos more] at returned
                -- the first page finds no order or no cluster
                have stepped :
                    vmMapCommon setup pool state (truncateAlign vaddr pageSize)
                        prot (flags ^^^ (flags &&& notUserFlags)) pgsize =
                          none ∨
                      ∃ code,
                        vmMapCommon setup pool state
                            (truncateAlign vaddr pageSize) prot
                            (flags ^^^ (flags &&& notUserFlags)) pgsize =
                          some (.error code, state) := by
                  unfold vmMapCommon
                  by_cases unaligned :
                      addrNotAligned (truncateAlign vaddr pageSize) pgsize =
                        true
                  · exact .inl (if_pos unaligned)
                  · right
                    rw [if_neg unaligned]
                    rcases first with
                      early | ⟨_, impossible⟩ | noOrder | ⟨order, isOrder, empty⟩
                    · exact absurd early backward
                    · cases impossible
                    · rw [noOrder]
                      exact ⟨_, rfl⟩
                    · have noCluster :
                          pgifGetFreePageCluster pool state order = none := by
                        rw [pgifGetFreePageCluster, empty, Option.map_none]
                      rw [isOrder]
                      simp only [noCluster]
                      exact ⟨_, rfl⟩
                rcases stepped with stops | ⟨stepCode, failed⟩
                · rw [stops] at returned
                  cases returned
                · rw [failed] at returned
                  obtain ⟨⟨_, final⟩, unmapped, same⟩ :=
                    Option.map_eq_some_iff.mp returned
                  cases same
                  exact vmUnmapCommon_empty staAligned staSpace unmapped
              · rw [if_neg more] at returned
                cases returned

/-- A call whose loop fails at a page rolls back what the loop mapped. -/
theorem vmMapUserpage_loop
    {locals : UnmapLocals}
    {rounds pgsize size stop : Nat}
    {code loopCode : Errno}
    {middle : VmState}
    (looped :
      vmMapLoop setup pool prot (flags ^^^ (flags &&& notUserFlags)) pgsize
        (pageRoundup ((vaddr + size) % addressSpace)) rounds
        (truncateAlign vaddr pageSize) state =
          some (.error loopCode, stop, middle))
    (returned :
      vmMapUserpage setup pool locals (.ok ()) rounds state vaddr prot flags
        pgsize size = some (.error code, after)) :
    code = loopCode ∧ flags &&& vmFlagsUnmanaged = 0 ∧
      ∃ result,
        vmUnmapCommon setup locals rounds middle (truncateAlign vaddr pageSize)
          flags
          ((stop + (addressSpace - truncateAlign vaddr pageSize)) %
            addressSpace) true = some (result, after) := by
  unfold vmMapUserpage at returned
  by_cases askedKernel : flags &&& notUserFlags ≠ 0
  · rw [if_pos askedKernel] at returned
    cases returned
  · rw [if_neg askedKernel] at returned
    have managed : flags &&& vmFlagsUnmanaged = 0 := by
      have mask : notUserFlags &&& vmFlagsUnmanaged = vmFlagsUnmanaged := by
        decide
      rw [← mask, ← Nat.and_assoc, not_not.mp askedKernel, Nat.zero_and]
    simp only at returned
    by_cases backward :
        pageRoundup ((vaddr + size) % addressSpace) <
          truncateAlign vaddr pageSize
    · -- an empty range does not fail in the loop
      cases rounds with
      | zero =>
          cases looped
      | succ rounds =>
          rw [vmMapLoop, if_neg (Nat.not_lt_of_gt backward)] at looped
          cases looped
    · rw [if_neg backward, looped] at returned
      obtain ⟨⟨result, final⟩, unmapped, same⟩ :=
        Option.map_eq_some_iff.mp returned
      cases same
      exact ⟨rfl, managed, result, unmapped⟩

end RiscvWorkshop.Vm
