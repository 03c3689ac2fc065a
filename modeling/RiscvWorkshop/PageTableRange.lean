import Mathlib
import RiscvWorkshop.PageTableEnter

namespace RiscvWorkshop.Pgtbl

/-!
# Mapping a range

A request is a sequence of pages of one size.  The module lifts what mapping a
page does to the loop of `hal_pgtbl_enter`, and says which addresses a page of
a size covers.
-/

variable {setup : PgtblSetup}
variable {state after : PgtblState}
variable {vaddr target pte : Nat}
variable {result : Except Errno Unit}

/-! ## The loop over the pages -/

/-- What the loop over the pages of a range can do. -/
inductive EnterRun
    (setup : PgtblSetup)
    (target prot flags : Nat) :
    Nat → Nat → Nat → PgtblState → Except Errno Unit → PgtblState → Prop where
  | done
      {vaddr paddr : Nat}
      {state : PgtblState} :
      EnterRun setup target prot flags 0 vaddr paddr state (.ok ()) state
  | failed
      {pages vaddr paddr : Nat}
      {state after : PgtblState}
      {code : Errno}
      (memory : code ≠ .enomem)
      (asked : prot &&& vmProtMask ≠ 0 ∨ EntryBusy setup state vaddr target)
      (run :
        MapRun setup vaddr target (leafPte prot flags paddr) 0 state
          (.error code) after) :
      EnterRun setup target prot flags (pages + 1) vaddr paddr state
        (.error code) after
  | next
      {pages vaddr paddr : Nat}
      {state middle after : PgtblState}
      {result : Except Errno Unit}
      (asked : prot &&& vmProtMask ≠ 0)
      (run :
        MapRun setup vaddr target (leafPte prot flags paddr) 0 state (.ok ())
          middle)
      (later :
        EnterRun setup target prot flags pages
          ((vaddr + targetSize target) % addressSpace)
          ((paddr + targetSize target) % addressSpace) middle result after) :
      EnterRun setup target prot flags (pages + 1) vaddr paddr state result
        after

/--
The writer meets no leaf above the page size before it stops: each page lies
under no larger leaf and asks for an access, or the loop ends at an earlier
page or at this one, whose entry is in use.
-/
def PagesMappable
    (setup : PgtblSetup)
    (state : PgtblState)
    (prot target pages vaddr : Nat) : Prop :=
  ∀ page < pages,
    (∃ earlier ≤ page,
        EntryBusy setup state (vaddr + earlier * targetSize target) target) ∨
      (prot &&& vmProtMask ≠ 0 ∧
        ∀ level < target, ∀ entry,
          ¬ LeafAt setup state (vaddr + page * targetSize target) level entry)

/-- The entries on the way to a table are in use. -/
theorem TreeSound.entryBusy_of_deeper
    {table level : Nat}
    (sound : TreeSound setup state)
    (walk : tableAt setup state vaddr level = some table)
    (deeper : target < level) :
    EntryBusy setup state vaddr target := by
  obtain ⟨next, nextWalk⟩ :=
    TreeSound.tableAt_some_of_le walk (Nat.succ_le_of_lt deeper)
  obtain ⟨above, aboveWalk⟩ :=
    TreeSound.tableAt_some_of_le nextWalk (Nat.le_succ target)
  rw [sound.tableAt_succ aboveWalk] at nextWalk
  exact ⟨_, ⟨above, aboveWalk, rfl⟩, (childOf_eq_some.mp nextWalk).1⟩

/-- The way to a table passes no leaf. -/
theorem TreeSound.not_leafAt_above
    {table level depth entry : Nat}
    (sound : TreeSound setup state)
    (walk : tableAt setup state vaddr depth = some table)
    (above : level < depth) :
    ¬ LeafAt setup state vaddr level entry := by
  rintro ⟨⟨upper, upperWalk, holds⟩, _, leaf⟩
  obtain ⟨next, nextWalk⟩ :=
    TreeSound.tableAt_some_of_le walk (Nat.succ_le_of_lt above)
  rw [sound.tableAt_succ upperWalk, holds, childOf_of_leaf leaf] at nextWalk
  cases nextWalk

/-- An entry in use on the level of the page size excludes larger leaves. -/
theorem EntryBusy.not_leafAt
    {level entry : Nat}
    (sound : TreeSound setup state)
    (busy : EntryBusy setup state vaddr target)
    (above : level < target) :
    ¬ LeafAt setup state vaddr level entry := by
  obtain ⟨_, ⟨reached, walk, _⟩, _⟩ := busy
  exact sound.not_leafAt_above walk above

theorem EntryBusy.of_sameEntry
    {other : Nat}
    (busy : EntryBusy setup state vaddr target)
    (same : SameEntry target other vaddr) :
    EntryBusy setup state other target := by
  obtain ⟨entry, ⟨table, walk, holds⟩, valid⟩ := busy
  refine ⟨entry, ⟨table, ?_, ?_⟩, valid⟩
  · rw [tableAt_sameEntry same (Nat.le_succ target), walk]
  · rw [same target le_rfl, holds]

/-- A leaf belongs to all addresses of its entry. -/
theorem LeafAt.of_sameEntry
    {depth level other entry : Nat}
    (leaf : LeafAt setup state vaddr level entry)
    (same : SameEntry depth other vaddr)
    (bound : level ≤ depth) :
    LeafAt setup state other level entry := by
  obtain ⟨⟨table, walk, holds⟩, valid, isLeaf⟩ := leaf
  refine ⟨⟨table, ?_, ?_⟩, valid, isLeaf⟩
  · rw [tableAt_sameEntry same (Nat.le_succ_of_le bound), walk]
  · rw [same level bound, holds]

/-- After the first page the rest of a mappable range stays mappable. -/
theorem PagesMappable.next
    {prot pages : Nat}
    (sound : TreeSound setup after)
    (mapped : PageMapped setup vaddr target pte state after)
    (mappable : PagesMappable setup state prot target (pages + 1) vaddr) :
    PagesMappable setup after prot target pages
      (vaddr + targetSize target) := by
  intro page bound
  have shift :
      ∀ number,
        vaddr + targetSize target + number * targetSize target =
          vaddr + (number + 1) * targetSize target := by
    intro number
    ring
  rcases mappable (page + 1) (Nat.succ_lt_succ bound) with
    ⟨earlier, earlierBound, busy⟩ | ⟨wanted, noLarger⟩
  · left
    cases earlier with
    | zero =>
        rw [Nat.zero_mul, Nat.add_zero] at busy
        exact absurd busy mapped.unused
    | succ earlier =>
        refine ⟨earlier, Nat.le_of_succ_le_succ earlierBound, ?_⟩
        rw [shift]
        by_cases same :
            SameEntry target (vaddr + (earlier + 1) * targetSize target) vaddr
        · exact absurd (busy.of_sameEntry same.symm) mapped.unused
        · obtain ⟨entry, found, valid⟩ := busy
          exact
            ⟨entry, (mapped.others same valid (.inr rfl)).mpr found, valid⟩
  · right
    refine ⟨wanted, ?_⟩
    intro level above entry leaf
    rw [shift] at leaf
    by_cases same :
        SameEntry target (vaddr + (page + 1) * targetSize target) vaddr
    · -- the new leaf is the only one of its page
      obtain ⟨sameLevel, _⟩ := sound.leafAt_unique leaf (mapped.leaf same)
      exact absurd sameLevel (Nat.ne_of_lt above)
    · obtain ⟨found, valid, isLeaf⟩ := leaf
      exact noLarger level above entry
        ⟨(mapped.others same valid (.inl isLeaf)).mp found, valid, isLeaf⟩

theorem targetSize_dvd
    (targetBound : target ≤ 2) :
    targetSize target ∣ addressSpace := by
  interval_cases target <;> decide

/-- The loop over the pages of a range does what such a loop can do. -/
theorem enterLoop_run
    {pages paddr prot flags : Nat}
    (sound : TreeSound setup state)
    (targetBound : target ≤ 2)
    (alignedVaddr : vaddr % targetSize target = 0)
    (alignedPaddr : paddr % targetSize target = 0)
    (inSpace :
      pages ≠ 0 → vaddr + pages * targetSize target < addressSpace)
    (mappable : PagesMappable setup state prot target pages vaddr)
    (entered :
      enterLoop setup prot flags (targetSize target) pages vaddr paddr state =
        some (result, after)) :
    EnterRun setup target prot flags pages vaddr paddr state result after := by
  induction pages generalizing vaddr paddr state with
  | zero =>
      cases entered
      exact .done
  | succ pages inductionHypothesis =>
      have first := mappable 0 (Nat.succ_pos pages)
      simp only [Nat.le_zero, exists_eq_left, Nat.zero_mul,
        Nat.add_zero] at first
      have asked :
          prot &&& vmProtMask ≠ 0 ∨ EntryBusy setup state vaddr target :=
        first.elim .inr fun wanted => .inl wanted.1
      have noLarger :
          ∀ level < target, ∀ entry,
            ¬ LeafAt setup state vaddr level entry := by
        intro level above entry
        rcases first with busy | ⟨_, clear⟩
        · exact busy.not_leafAt sound above
        · exact clear level above entry
      rw [enterLoop] at entered
      cases mapped :
          mapVaddrToPaddr setup state vaddr paddr prot flags
            (targetSize target) with
      | none =>
          rw [mapped] at entered
          cases entered
      | some outcome =>
          obtain ⟨pageResult, middle⟩ := outcome
          obtain ⟨memory, run⟩ :=
            mapVaddrToPaddr_run sound targetBound alignedVaddr alignedPaddr
              asked noLarger mapped
          rw [mapped] at entered
          cases pageResult with
          | error code =>
              cases entered
              exact .failed (fun same => memory (congrArg _ same)) asked run
          | ok =>
              have wanted : prot &&& vmProtMask ≠ 0 := by
                rcases asked with wanted | busy
                · exact wanted
                · cases (run.eq_of_busy sound busy).1
              obtain ⟨valid, leaf, _⟩ := leafPte_attributes prot flags paddr
              have isLeaf := leaf.mpr wanted
              have middleSound := run.treeSound sound valid isLeaf
              have space := inSpace (Nat.succ_ne_zero pages)
              have within : vaddr + targetSize target < addressSpace := by
                have split :
                    (pages + 1) * targetSize target =
                      pages * targetSize target + targetSize target := by
                  ring
                omega
              have rest :=
                mappable.next middleSound (run.pageMapped sound valid isLeaf)
              refine .next wanted run
                (inductionHypothesis middleSound ?_ ?_ ?_ ?_ entered)
              · rw [Nat.mod_mod_of_dvd _ (targetSize_dvd targetBound),
                  Nat.add_mod_right, alignedVaddr]
              · rw [Nat.mod_mod_of_dvd _ (targetSize_dvd targetBound),
                  Nat.add_mod_right, alignedPaddr]
              · intro _
                rw [Nat.mod_eq_of_lt within]
                have split :
                    (pages + 1) * targetSize target =
                      pages * targetSize target + targetSize target := by
                  ring
                omega
              · rw [Nat.mod_eq_of_lt within]
                exact rest

namespace EnterRun

variable {pages paddr prot flags : Nat}

theorem treeSound
    (run : EnterRun setup target prot flags pages vaddr paddr state result after)
    (sound : TreeSound setup state) :
    TreeSound setup after := by
  induction run with
  | done =>
      exact sound
  | @failed pages vaddr paddr state after code memory asked run =>
      obtain ⟨valid, leaf, _⟩ := leafPte_attributes prot flags paddr
      rcases asked with wanted | busy
      · exact run.treeSound sound valid (leaf.mpr wanted)
      · -- nothing was written, so the attributes do not matter
        obtain ⟨_, visited, rfl⟩ := run.eq_of_busy sound busy
        exact sound.of_visited visited
  | @next pages vaddr paddr state middle after result asked run later
      inductionHypothesis =>
      obtain ⟨valid, leaf, _⟩ := leafPte_attributes prot flags paddr
      exact inductionHypothesis (run.treeSound sound valid (leaf.mpr asked))

theorem visitsSound
    (run : EnterRun setup target prot flags pages vaddr paddr state result after)
    (sound : TreeSound setup state)
    (visits : VisitsSound state) :
    VisitsSound after := by
  induction run with
  | done =>
      exact visits
  | failed _ _ run =>
      exact run.visitsSound sound visits
  | @next pages vaddr paddr state middle after result asked run later
      inductionHypothesis =>
      obtain ⟨valid, leaf, _⟩ := leafPte_attributes prot flags paddr
      exact inductionHypothesis (run.treeSound sound valid (leaf.mpr asked))
        (run.visitsSound sound visits)

theorem dataKept
    (run : EnterRun setup target prot flags pages vaddr paddr state result after)
    (sound : TreeSound setup state) :
    DataKept state after := by
  induction run with
  | @done vaddr paddr state =>
      exact DataKept.refl state
  | failed _ _ run =>
      exact run.dataKept sound
  | @next pages vaddr paddr state middle after result asked run later
      inductionHypothesis =>
      obtain ⟨valid, leaf, _⟩ := leafPte_attributes prot flags paddr
      exact (run.dataKept sound).trans
        (inductionHypothesis (run.treeSound sound valid (leaf.mpr asked)))

/-- A range whose first entry is in use is refused as a whole. -/
theorem eq_of_busy
    (run :
      EnterRun setup target prot flags pages vaddr paddr state result after)
    (sound : TreeSound setup state)
    (nonempty : pages ≠ 0)
    (busy : EntryBusy setup state vaddr target) :
    result = .error .ebusy ∧
      ∃ visited, after = { state with visited := visited } := by
  cases run with
  | done =>
      exact absurd rfl nonempty
  | failed _ _ run =>
      exact run.eq_of_busy sound busy
  | next _ run _ =>
      cases (run.eq_of_busy sound busy).1

/--
A loop that succeeds maps every page of the range, and changes no leaf outside
it.
-/
theorem leaves
    (run :
      EnterRun setup target prot flags pages vaddr paddr state (.ok ()) after)
    (sound : TreeSound setup state)
    (vaddrSpace : vaddr + pages * targetSize target < addressSpace)
    (paddrSpace : paddr + pages * targetSize target < addressSpace)
    (distinct :
      ∀ first second,
        first < second → second < pages →
          ¬ SameEntry target (vaddr + second * targetSize target)
            (vaddr + first * targetSize target)) :
    (∀ page < pages, ∀ other,
        SameEntry target other (vaddr + page * targetSize target) →
          LeafAt setup after other target
            (leafPte prot flags (paddr + page * targetSize target))) ∧
      ∀ other,
        (∀ page < pages,
          ¬ SameEntry target other (vaddr + page * targetSize target)) →
        ∀ level entry,
          LeafAt setup after other level entry ↔
            LeafAt setup state other level entry := by
  generalize outcome : (Except.ok () : Except Errno Unit) = result at run
  induction run with
  | done =>
      exact ⟨fun page bound => absurd bound (Nat.not_lt_zero page),
        fun _ _ _ _ => Iff.rfl⟩
  | failed =>
      cases outcome
  | @next pages vaddr paddr state middle after result asked run later
      inductionHypothesis =>
      obtain ⟨valid, isLeaf, _⟩ := leafPte_attributes prot flags paddr
      have mapped := run.pageMapped sound valid (isLeaf.mpr asked)
      have shift :
          ∀ start number,
            start + targetSize target + number * targetSize target =
              start + (number + 1) * targetSize target := by
        intro start number
        ring
      have split :
          (pages + 1) * targetSize target =
            pages * targetSize target + targetSize target := by
        ring
      have vaddrNext :
          (vaddr + targetSize target) % addressSpace =
            vaddr + targetSize target :=
        Nat.mod_eq_of_lt (by omega)
      have paddrNext :
          (paddr + targetSize target) % addressSpace =
            paddr + targetSize target :=
        Nat.mod_eq_of_lt (by omega)
      rw [vaddrNext, paddrNext] at inductionHypothesis
      obtain ⟨laterLeaf, laterOthers⟩ :=
        inductionHypothesis
          (run.treeSound sound valid (isLeaf.mpr asked))
          (by omega) (by omega)
          (by
            intro first second earlier bound
            rw [shift, shift]
            exact distinct (first + 1) (second + 1)
              (Nat.succ_lt_succ earlier) (Nat.succ_lt_succ bound))
          outcome
      constructor
      · intro page bound other same
        cases page with
        | zero =>
            rw [Nat.zero_mul, Nat.add_zero] at same
            rw [Nat.zero_mul, Nat.add_zero]
            -- the later pages of the range are other pages
            refine (laterOthers other ?_ _ _).mpr (mapped.leaf same)
            intro laterPage laterBound laterSame
            rw [shift] at laterSame
            apply distinct 0 (laterPage + 1) (Nat.succ_pos _)
              (Nat.succ_lt_succ laterBound)
            rw [Nat.zero_mul, Nat.add_zero]
            exact laterSame.symm.trans same
        | succ page =>
            rw [← shift paddr]
            apply laterLeaf page (Nat.lt_of_succ_lt_succ bound)
            rw [shift]
            exact same
      · intro other outside level entry
        have first := outside 0 (Nat.succ_pos pages)
        rw [Nat.zero_mul, Nat.add_zero] at first
        have later :=
          laterOthers other
            (by
              intro page bound
              rw [shift]
              exact outside (page + 1) (Nat.succ_lt_succ bound))
            level entry
        refine later.trans ?_
        constructor
        · rintro ⟨found, validEntry, leaf⟩
          exact ⟨(mapped.others first validEntry (.inl leaf)).mp found,
            validEntry, leaf⟩
        · rintro ⟨found, validEntry, leaf⟩
          exact ⟨(mapped.others first validEntry (.inl leaf)).mpr found,
            validEntry, leaf⟩

end EnterRun

/-! ## The addresses of a page -/

theorem digit_eq
    {depth : Nat}
    (bound : depth ≤ 2)
    (vaddr : Nat) :
    digit vaddr depth = vaddr / 2 ^ (30 - 9 * depth) % 512 := by
  have mask : pgtblEntriesNr - 1 = 2 ^ 9 - 1 := rfl
  have shift : pgtblIndexShift (2 - depth) = 30 - 9 * depth := by
    rw [pgtblIndexShift, pgtblLvlNr]
    omega
  rw [digit, pgtblCalcIndexVal, mask, Nat.and_two_pow_sub_one_eq_mod,
    Nat.shiftRight_eq_div_pow, shift]

/-- Two addresses select the same entry when they lie in the same page modulo Sv39. -/
theorem sameEntry_iff
    (targetBound : target ≤ 2)
    {first second : Nat} :
    SameEntry target first second ↔
      first % 2 ^ 39 / targetSize target =
        second % 2 ^ 39 / targetSize target := by
  have top : SameEntry target first second →
      first / 2 ^ 30 % 512 = second / 2 ^ 30 % 512 := by
    intro same
    have digits := same 0 (Nat.zero_le _)
    rwa [digit_eq (by omega), digit_eq (by omega)] at digits
  interval_cases target
  · have size : targetSize 0 = 2 ^ 30 := by decide
    rw [size]
    constructor
    · intro same
      have digits := top same
      omega
    · intro same earlier bound
      obtain rfl := Nat.le_zero.mp bound
      rw [digit_eq (by omega), digit_eq (by omega)]
      omega
  · have size : targetSize 1 = 2 ^ 21 := by decide
    rw [size]
    constructor
    · intro same
      have digits := top same
      have middle := same 1 le_rfl
      rw [digit_eq (by omega), digit_eq (by omega)] at middle
      omega
    · intro same earlier bound
      rw [digit_eq (by omega), digit_eq (by omega)]
      interval_cases earlier <;> omega
  · have size : targetSize 2 = 2 ^ 12 := by decide
    rw [size]
    constructor
    · intro same
      have digits := top same
      have middle := same 1 (by omega)
      have low := same 2 le_rfl
      rw [digit_eq (by omega), digit_eq (by omega)] at middle low
      omega
    · intro same earlier bound
      rw [digit_eq (by omega), digit_eq (by omega)]
      interval_cases earlier <;> omega

/-- The addresses that Sv39 translates: the lower and the upper half. -/
def InSv39 (vaddr : Nat) : Prop :=
  vaddr < 2 ^ 38 ∨ (2 ^ 64 - 2 ^ 38 ≤ vaddr ∧ vaddr < 2 ^ 64)

/-- In Sv39 only the addresses of a page select its entry. -/
theorem sameEntry_iff_of_inSv39
    (targetBound : target ≤ 2)
    {first second : Nat}
    (firstIn : InSv39 first)
    (secondIn : InSv39 second) :
    SameEntry target first second ↔
      first / targetSize target = second / targetSize target := by
  rw [sameEntry_iff targetBound]
  unfold InSv39 at firstIn secondIn
  interval_cases target
  · rw [show targetSize 0 = 2 ^ 30 by decide]
    omega
  · rw [show targetSize 1 = 2 ^ 21 by decide]
    omega
  · rw [show targetSize 2 = 2 ^ 12 by decide]
    omega

/-! ## The request as a whole -/

namespace MapRequest

/-- The depth of the leaves that a request asks for. -/
def leafDepth (request : MapRequest) : Nat :=
  if request.aligned halPageSize1G then
    0
  else if request.aligned halPageSize2M then
    1
  else
    2

theorem leafDepth_le (request : MapRequest) : request.leafDepth ≤ 2 := by
  unfold leafDepth
  split_ifs <;> decide

theorem targetSize_leafDepth (request : MapRequest) :
    targetSize request.leafDepth = request.pgsize := by
  unfold leafDepth pgsize
  split_ifs <;> decide

/-- The page size that was selected divides the bounds of the request. -/
theorem aligned_pgsize
    (request : MapRequest)
    (pageAligned : request.aligned pageSize = true) :
    request.aligned request.pgsize = true := by
  unfold pgsize
  split_ifs with large medium
  · exact large
  · exact medium
  · exact pageAligned

theorem aligned_iff
    (request : MapRequest)
    (size : Nat) :
    request.aligned size = true ↔
      request.vaddr % size = 0 ∧ request.paddr % size = 0 ∧
        request.vaddrEnd % size = 0 ∧ request.paddrEnd % size = 0 := by
  simp [aligned, Pgtbl.aligned, and_assoc]

/-- The rounds of the loop end at the end of the range. -/
theorem vaddr_add_pages
    (request : MapRequest)
    (pageAligned : request.aligned pageSize = true)
    (nonempty : request.pages ≠ 0) :
    request.vaddr + request.pages * targetSize request.leafDepth =
      request.vaddrEnd := by
  obtain ⟨start, _, stop, _⟩ :=
    (request.aligned_iff _).mp (request.aligned_pgsize pageAligned)
  have exact : (request.vaddrEnd - request.vaddr) % request.pgsize = 0 :=
    Nat.sub_mod_eq_zero_of_mod_eq (stop.trans start.symm)
  rw [targetSize_leafDepth]
  have rounds : request.pages * request.pgsize =
      request.vaddrEnd - request.vaddr :=
    Nat.div_mul_cancel (Nat.dvd_of_mod_eq_zero exact)
  have forward : request.vaddrEnd - request.vaddr ≠ 0 := by
    intro backward
    rw [pages, backward, Nat.zero_div] at nonempty
    exact nonempty rfl
  omega

end MapRequest

/-- What `hal_pgtbl_enter` can do when no larger leaf is in its way. -/
theorem halPgtblEnter_run
    {request : MapRequest}
    (sound : TreeSound setup state)
    (mappable :
      PagesMappable setup state request.prot request.leafDepth request.pages
        request.vaddr)
    (entered : halPgtblEnter setup state request = some (result, after)) :
    request.aligned pageSize = true ∧
      EnterRun setup request.leafDepth request.prot request.flags request.pages
        request.vaddr request.paddr state result after := by
  unfold halPgtblEnter at entered
  split_ifs at entered with pageAligned
  refine ⟨pageAligned, ?_⟩
  obtain ⟨alignedVaddr, alignedPaddr, _, _⟩ :=
    (request.aligned_iff _).mp (request.aligned_pgsize pageAligned)
  rw [← request.targetSize_leafDepth] at alignedVaddr alignedPaddr entered
  apply enterLoop_run sound request.leafDepth_le alignedVaddr alignedPaddr _
    mappable entered
  intro nonempty
  rw [request.vaddr_add_pages pageAligned nonempty]
  exact Nat.mod_lt _ (by decide)

/-! ## What the reader finds after a request -/

theorem targetSize_pos (target : Nat) : 0 < targetSize target := by
  rw [targetSize, pgtblCalcPagesize, Nat.shiftLeft_eq, Nat.one_mul]
  exact Nat.two_pow_pos _

theorem pageSize_dvd_targetSize
    (targetBound : target ≤ 2) :
    pageSize ∣ targetSize target := by
  interval_cases target <;> decide

/-- The address of a page survives the way through an entry. -/
theorem pteToPaddr_leafPte
    {prot flags paddr : Nat}
    (bound : paddr < 2 ^ 56)
    (pageAligned : pageSize ∣ paddr) :
    pteToPaddr (leafPte prot flags paddr) = paddr := by
  have size : pageSize = 2 ^ pageShift := by decide
  rw [size] at pageAligned
  rw [pteToPaddr, (leafPte_fields prot flags paddr).2, ppnMask_and_eq bound,
    Nat.shiftLeft_eq, Nat.shiftRight_eq_div_pow,
    Nat.div_mul_cancel pageAligned]

/-- A requested page reads back as it was requested. -/
theorem mappingOf_leafPte
    {prot flags paddr : Nat}
    (bound : paddr < 2 ^ 56)
    (pageAligned : pageSize ∣ paddr) :
    mappingOf (leafPte prot flags paddr) (2 - target) =
      { paddr := paddr
        prot := prot &&& vmProtMask
        flags := flags &&& vmFlagsPteMask
        pgsize := targetSize target } := by
  rw [mappingOf, pteToPaddr_leafPte bound pageAligned,
    (leafPte_attributes prot flags paddr).2.2, targetSize]

/-- The addresses that a request names. -/
def MapRequest.Covers (request : MapRequest) (vaddr : Nat) : Prop :=
  request.vaddr ≤ vaddr ∧ vaddr < request.vaddr + request.len

/-- The page that `hal_pgtbl_extract` reports for an address of a request. -/
def MapRequest.mappingAt (request : MapRequest) (vaddr : Nat) : Mapping :=
  { paddr :=
      (request.paddr + (vaddr - request.vaddr)) / request.pgsize *
        request.pgsize
    prot := request.prot &&& vmProtMask
    flags := request.flags &&& vmFlagsPteMask
    pgsize := request.pgsize }

/-- A request without wrap covers its pages and nothing else. -/
theorem MapRequest.pages_mul
    (request : MapRequest)
    (pageAligned : request.aligned pageSize = true)
    (noWrap : request.vaddr + request.len < addressSpace) :
    request.pages * targetSize request.leafDepth = request.len := by
  obtain ⟨start, _, stop, _⟩ :=
    (request.aligned_iff _).mp (request.aligned_pgsize pageAligned)
  have finish : request.vaddrEnd = request.vaddr + request.len :=
    Nat.mod_eq_of_lt noWrap
  rw [finish] at stop
  have whole : request.len % request.pgsize = 0 := by
    have difference := Nat.sub_mod_eq_zero_of_mod_eq (stop.trans start.symm)
    rwa [Nat.add_sub_cancel_left] at difference
  rw [request.targetSize_leafDepth, MapRequest.pages, finish,
    Nat.add_sub_cancel_left]
  exact Nat.div_mul_cancel (Nat.dvd_of_mod_eq_zero whole)

/--
A request for pages that nothing maps, when it succeeds, maps the range to the
range of physical addresses and leaves every other address as it was.
-/
theorem halPgtblEnter_extract
    {request : MapRequest}
    (sound : TreeSound setup state)
    (wanted : request.prot &&& vmProtMask ≠ 0)
    (noWrap : request.vaddr + request.len < addressSpace)
    (physical : request.paddr + request.len < 2 ^ 56)
    (translated : ∀ vaddr, request.Covers vaddr → InSv39 vaddr)
    (unmapped :
      ∀ vaddr, request.Covers vaddr →
        halPgtblExtract setup state.mem vaddr = .error .enoent)
    (entered : halPgtblEnter setup state request = some (.ok (), after)) :
    (∀ vaddr, request.Covers vaddr →
        halPgtblExtract setup after.mem vaddr =
          .ok (request.mappingAt vaddr)) ∧
      ∀ vaddr, InSv39 vaddr → ¬ request.Covers vaddr →
        halPgtblExtract setup after.mem vaddr =
          halPgtblExtract setup state.mem vaddr := by
  have targetBound := request.leafDepth_le
  have noLeaf :
      ∀ {vaddr level entry}, request.Covers vaddr →
        ¬ LeafAt setup state vaddr level entry := by
    intro vaddr level entry covered leaf
    have found := halPgtblExtract_of_leaf sound leaf
    rw [unmapped vaddr covered] at found
    cases found
  have sizePos := targetSize_pos request.leafDepth
  -- the pages of the range lie in the range
  have pageAligned : request.aligned pageSize = true := by
    unfold halPgtblEnter at entered
    split_ifs at entered with pageAligned
    exact pageAligned
  have whole := request.pages_mul pageAligned noWrap
  have pageCovered :
      ∀ page < request.pages,
        request.Covers
          (request.vaddr + page * targetSize request.leafDepth) := by
    intro page bound
    have inside :=
      Nat.mul_lt_mul_of_pos_right bound sizePos
    constructor <;> omega
  have mappable :
      PagesMappable setup state request.prot request.leafDepth request.pages
        request.vaddr :=
    fun page bound =>
      .inr ⟨wanted, fun level _ entry => noLeaf (pageCovered page bound)⟩
  obtain ⟨_, run⟩ := halPgtblEnter_run sound mappable entered
  have afterSound := run.treeSound sound
  obtain ⟨alignedVaddr, alignedPaddr, _, _⟩ :=
    (request.aligned_iff _).mp (request.aligned_pgsize pageAligned)
  rw [← request.targetSize_leafDepth] at alignedVaddr alignedPaddr
  obtain ⟨vaddrPage, vaddrEq⟩ := Nat.dvd_of_mod_eq_zero alignedVaddr
  obtain ⟨paddrPage, paddrEq⟩ := Nat.dvd_of_mod_eq_zero alignedPaddr
  have pageNumber :
      ∀ page,
        (request.vaddr + page * targetSize request.leafDepth) /
            targetSize request.leafDepth = vaddrPage + page := by
    intro page
    rw [vaddrEq, Nat.mul_comm page, ← Nat.mul_add,
      Nat.mul_div_cancel_left _ sizePos]
  have space : addressSpace = 2 ^ 64 := rfl
  obtain ⟨leaves, others⟩ :=
    run.leaves sound (by omega) (by omega) (by
      intro first second earlier bound same
      rw [sameEntry_iff_of_inSv39 targetBound
        (translated _ (pageCovered second bound))
        (translated _ (pageCovered first (earlier.trans bound))),
        pageNumber, pageNumber] at same
      omega)
  constructor
  · intro vaddr covered
    obtain ⟨lower, upper⟩ := covered
    -- the page of the address, counted from the start of the range
    have page :
        (vaddr - request.vaddr) / targetSize request.leafDepth <
          request.pages := by
      apply Nat.div_lt_of_lt_mul
      rw [Nat.mul_comm, whole]
      omega
    have split :
        vaddr = request.vaddr + (vaddr - request.vaddr) := by
      omega
    have number :
        vaddr / targetSize request.leafDepth =
          vaddrPage +
            (vaddr - request.vaddr) / targetSize request.leafDepth := by
      conv_lhs => rw [split, vaddrEq]
      rw [Nat.mul_add_div sizePos, ← vaddrEq]
    have same :
        SameEntry request.leafDepth vaddr
          (request.vaddr +
            (vaddr - request.vaddr) / targetSize request.leafDepth *
              targetSize request.leafDepth) := by
      rw [sameEntry_iff_of_inSv39 targetBound (translated vaddr ⟨lower, upper⟩)
        (translated _ (pageCovered _ page)), pageNumber, number]
    have leaf := leaves _ page vaddr same
    have inside := Nat.mul_lt_mul_of_pos_right page sizePos
    have pageDvd := pageSize_dvd_targetSize targetBound
    rw [halPgtblExtract_of_leaf afterSound leaf,
      mappingOf_leafPte (by omega)
        (Nat.dvd_add (pageDvd.trans ⟨paddrPage, paddrEq⟩)
          (Nat.dvd_mul_left_of_dvd pageDvd _))]
    have frame :
        (request.paddr + (vaddr - request.vaddr)) /
              targetSize request.leafDepth * targetSize request.leafDepth =
          request.paddr +
            (vaddr - request.vaddr) / targetSize request.leafDepth *
              targetSize request.leafDepth := by
      conv_lhs => rw [paddrEq]
      rw [Nat.mul_add_div sizePos, Nat.add_mul, Nat.mul_comm paddrPage,
        ← paddrEq]
    rw [MapRequest.mappingAt, ← request.targetSize_leafDepth, frame]
  · intro vaddr inSv39 outside
    apply halPgtblExtract_congr sound afterSound
    apply others vaddr
    intro page bound same
    rw [sameEntry_iff_of_inSv39 targetBound inSv39
      (translated _ (pageCovered page bound)), pageNumber] at same
    apply outside
    have lower := Nat.div_mul_le_self vaddr (targetSize request.leafDepth)
    have upper :
        vaddr <
          vaddr / targetSize request.leafDepth *
              targetSize request.leafDepth +
            targetSize request.leafDepth :=
      Nat.lt_div_mul_add sizePos
    rw [same, Nat.add_mul, Nat.mul_comm vaddrPage, ← vaddrEq] at lower upper
    have inside : (page + 1) * targetSize request.leafDepth ≤
        request.pages * targetSize request.leafDepth :=
      Nat.mul_le_mul_right _ bound
    rw [Nat.add_mul, Nat.one_mul] at inside
    constructor <;> omega

end RiscvWorkshop.Pgtbl
