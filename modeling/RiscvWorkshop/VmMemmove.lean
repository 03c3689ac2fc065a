import Mathlib
import RiscvWorkshop.VmCopy

namespace RiscvWorkshop.Vm

open Pgtbl

/-!
# Moving bytes between address spaces

Each step of `vm_memmove` stays in one page on either side.  It takes the
offset in the source page from the destination address.
-/

/-- The arguments of `vm_memmove`. -/
structure MoveRequest where
  destPgt : Nat
  dest : Nat
  srcPgt : Nat
  src : Nat
  len : Nat
deriving Repr, DecidableEq

namespace MoveRequest

variable (system : VmSystem)
variable (request : MoveRequest)

/-- The address space that is written, and the one that is read. -/
def destSpace : PagedSpace := (system.pgtbl request.destPgt).space
def srcSpace : PagedSpace := (system.pgtbl request.srcPgt).space

/-- Where the bytes of the destination and of the source are. -/
def destAt (i : Nat) : Option Nat :=
  (request.destSpace system).location (request.dest + i)

def srcAt (i : Nat) : Option Nat :=
  (request.srcSpace system).location (request.src + i)

/-- The loop of `vm_memmove` from a byte on. -/
def loopFrom (rounds : Nat) (bytes : Bytes) (i : Nat) : Option (Nat × Bytes) :=
  memmoveLoop system request.destPgt request.srcPgt rounds bytes
    (request.dest + i) (request.src + i) (request.len - i)

/--
The first bytes of both ranges, up to one that has no page, are at different
places; bytes of the source may share a place.
-/
structure Movable (n : Nat) : Prop where
  inRange : n ≤ request.len
  mapped :
    ∀ i < n,
      (∃ page,
        (request.destSpace system).page (request.dest + i) = some page) ∧
        ∃ page,
          (request.srcSpace system).page (request.src + i) = some page
  ends :
    n < request.len →
      (request.destSpace system).page (request.dest + n) = none ∨
        (request.srcSpace system).page (request.src + n) = none
  destApart :
    ∀ i < n, ∀ j < n,
      i ≠ j → request.destAt system i ≠ request.destAt system j
  apart :
    ∀ i < n, ∀ j < n, request.destAt system i ≠ request.srcAt system j

/-- The bytes before a place are copied, and nothing else has changed. -/
structure Copied
    (n : Nat)
    (bytes final : Bytes) : Prop where
  copied :
    ∀ i < n,
      (request.destAt system i).map final = (request.srcAt system i).map bytes
  kept :
    ∀ paddr,
      (∀ i < n, request.destAt system i ≠ some paddr) →
        final paddr = bytes paddr

/--
`vm_memmove` copies the bytes that have pages, says how many it did not copy,
and releases the mutexes that it took once each.
-/
def MoveRight
    (n : Nat)
    (bytes : Bytes) : Prop :=
  ∀ locked : Nat → Except Errno Unit,
    match locked request.destPgt, locked request.srcPgt with
    | .error _, _ =>
        vmMemmove system locked bytes request.destPgt request.dest
            request.srcPgt request.src request.len =
          some (request.len, bytes, [])
    | .ok (), .error _ =>
        vmMemmove system locked bytes request.destPgt request.dest
            request.srcPgt request.src request.len =
          some (request.len, bytes,
            [.lock request.destPgt, .unlock request.destPgt])
    | .ok (), .ok () =>
        ∃ final,
          vmMemmove system locked bytes request.destPgt request.dest
              request.srcPgt request.src request.len =
            some (request.len - n, final,
              if request.destPgt = request.srcPgt then
                [.lock request.destPgt, .unlock request.destPgt]
              else
                [.lock request.destPgt, .lock request.srcPgt,
                  .unlock request.srcPgt, .unlock request.destPgt]) ∧
            request.Copied system n bytes final

/--
The database knows the pages of a byte, and the two addresses have the same
offset in a page of the size of its source page.
-/
structure ByteMovable (i : Nat) : Prop where
  destKnown : PageKnown system request.destPgt (request.dest + i)
  srcKnown : PageKnown system request.srcPgt (request.src + i)
  sameOffset :
    ∀ page,
      (request.srcSpace system).page (request.src + i) = some page →
        request.dest % page.size = request.src % page.size

/--
Every byte that has pages can be moved, and the database knows the page of the
destination where the source has none.
-/
structure BytesMovable (n : Nat) : Prop where
  each : ∀ i < n, request.ByteMovable system i
  last :
    n < request.len → PageKnown system request.destPgt (request.dest + n)

end MoveRequest

section Steps

variable {system : VmSystem}
variable {request : MoveRequest}
variable {n i : Nat}
variable {bytes : Bytes}

/-- The bytes that one step moves when the offsets agree. -/
def MoveRequest.step
    (system : VmSystem)
    (request : MoveRequest)
    (i : Nat) : Nat :=
  min (request.len - i)
    (min ((request.destSpace system).room (request.dest + i))
      ((request.srcSpace system).room (request.src + i)))

theorem memmove_add
    {dest src len offset : Nat}
    (inside : offset < len) :
    memmove bytes dest src len (dest + offset) = bytes (src + offset) := by
  rw [memmove, if_pos (by omega), Nat.add_sub_cancel_left]

theorem memmove_of_ne
    {dest src len paddr : Nat}
    (outside : ∀ offset < len, paddr ≠ dest + offset) :
    memmove bytes dest src len paddr = bytes paddr := by
  rw [memmove, if_neg]
  rintro ⟨low, high⟩
  exact outside (paddr - dest) (by omega) (by omega)

/-- Nothing is copied before the first byte. -/
theorem MoveRequest.Copied.none :
    request.Copied system 0 bytes bytes :=
  ⟨fun _ before => absurd before (Nat.not_lt_zero _), fun _ _ => rfl⟩

/-- A step that copies the next bytes to their places. -/
theorem MoveRequest.Copied.step
    {current : Bytes}
    {count dest src : Nat}
    (movable : request.Movable system n)
    (copied : request.Copied system i bytes current)
    (inside : i + count ≤ n)
    (destAt :
      ∀ k < count, request.destAt system (i + k) = some (dest + k))
    (srcAt :
      ∀ k < count, request.srcAt system (i + k) = some (src + k)) :
    request.Copied system (i + count) bytes
      (memmove current dest src count) := by
  refine ⟨?_, ?_⟩
  · intro j before
    rcases Nat.lt_or_ge j i with old | new
    · have place := copied.copied j old
      obtain ⟨paddr, isPlace⟩ : ∃ paddr, request.destAt system j = some paddr := by
        obtain ⟨⟨page, inPage⟩, -⟩ := movable.mapped j (by omega)
        exact ⟨_, PagedSpace.location_of_page inPage⟩
      rw [isPlace, Option.map_some] at place ⊢
      rw [memmove_of_ne, place]
      intro offset inStep same
      refine movable.destApart j (by omega) (i + offset) (by omega)
        (by omega) ?_
      rw [isPlace, destAt offset inStep, same]
    · obtain ⟨offset, rfl⟩ := Nat.exists_eq_add_of_le new
      have inStep : offset < count := by omega
      rw [destAt offset inStep, srcAt offset inStep, Option.map_some,
        Option.map_some, memmove_add inStep, copied.kept]
      intro j old same
      exact movable.apart j (by omega) (i + offset) (by omega)
        (by rw [same, srcAt offset inStep])
  · intro paddr notDest
    rw [memmove_of_ne, copied.kept]
    · intro j old
      exact notDest j (by omega)
    · intro offset inStep same
      exact notDest (i + offset) (by omega) (by rw [destAt offset inStep, same])

/-- A step is not empty and stays in both pages. -/
theorem MoveRequest.Movable.step_pos
    (movable : request.Movable system n)
    (before : i < n) :
    0 < request.step system i := by
  obtain ⟨⟨destPage, inDest⟩, srcPage, inSrc⟩ := movable.mapped i before
  have inRange := movable.inRange
  have destRoom := PagedSpace.room_pos inDest
  have srcRoom := PagedSpace.room_pos inSrc
  rw [MoveRequest.step]
  omega

/-- A step does not go beyond the bytes that have pages. -/
theorem MoveRequest.Movable.step_le
    (movable : request.Movable system n)
    (before : i < n) :
    i + request.step system i ≤ n := by
  by_contra beyond
  obtain ⟨⟨destPage, inDest⟩, srcPage, inSrc⟩ := movable.mapped i before
  have inRange := movable.inRange
  rw [MoveRequest.step] at beyond
  have destNext :=
    PagedSpace.page_add inDest
      (show n - i < (request.destSpace system).room (request.dest + i) by omega)
  have srcNext :=
    PagedSpace.page_add inSrc
      (show n - i < (request.srcSpace system).room (request.src + i) by omega)
  rw [show request.dest + i + (n - i) = request.dest + n by omega] at destNext
  rw [show request.src + i + (n - i) = request.src + n by omega] at srcNext
  rcases movable.ends (by omega) with noDest | noSrc
  · rw [destNext] at noDest
    cases noDest
  · rw [srcNext] at noSrc
    cases noSrc

/-- A round at a byte whose pages are known: what it moves, and from where. -/
theorem MoveRequest.loopFrom_succ
    {destPage srcPage : Page}
    (inRange : i < request.len)
    (inDest :
      (request.destSpace system).page (request.dest + i) = some destPage)
    (inSrc : (request.srcSpace system).page (request.src + i) = some srcPage)
    (destKnown : system.known destPage.base = true)
    (srcKnown : system.known srcPage.base = true)
    (bytes : Bytes)
    (rounds : Nat) :
    request.loopFrom system (rounds + 1) bytes i =
      let srcOff := (request.dest + i) % srcPage.size
      let count :=
        min (request.len - i)
          (min ((request.destSpace system).room (request.dest + i))
            (srcPage.size - srcOff))
      request.loopFrom system rounds
        (memmove bytes (destPage.base + (request.dest + i) % destPage.size)
          (srcPage.base + srcOff) count)
        (i + count) := by
  obtain ⟨destMapping, destExtracted, destBase, destSize⟩ :=
    VmPgtbl.extract_of_page inDest
  obtain ⟨srcMapping, srcExtracted, srcBase, srcSize⟩ :=
    VmPgtbl.extract_of_page inSrc
  have remains : request.len - i ≠ 0 := by omega
  rw [MoveRequest.loopFrom, memmoveLoop, if_neg remains, destExtracted,
    PagedSpace.room_of_page inDest]
  simp only [destBase, destSize, destKnown, if_true, srcExtracted, srcBase,
    srcSize, srcKnown]
  rw [MoveRequest.loopFrom, Nat.add_assoc, Nat.add_assoc, Nat.sub_sub]

/-- A round at a byte whose offsets agree is a step. -/
theorem MoveRequest.Movable.round
    {current : Bytes}
    (movable : request.Movable system n)
    (before : i < n)
    (byteMovable : request.ByteMovable system i)
    (copied : request.Copied system i bytes current)
    (rounds : Nat) :
    ∃ after,
      request.loopFrom system (rounds + 1) current i =
          request.loopFrom system rounds after (i + request.step system i) ∧
        request.Copied system (i + request.step system i) bytes after := by
  obtain ⟨⟨destPage, inDest⟩, srcPage, inSrc⟩ := movable.mapped i before
  have inRange := movable.inRange
  have sameOffset :
      (request.dest + i) % srcPage.size = (request.src + i) % srcPage.size := by
    rw [Nat.add_mod, byteMovable.sameOffset srcPage inSrc, ← Nat.add_mod]
  have count :
      min (request.len - i)
          (min ((request.destSpace system).room (request.dest + i))
            (srcPage.size - (request.src + i) % srcPage.size)) =
        request.step system i := by
    rw [MoveRequest.step, PagedSpace.room_of_page inSrc]
  have succ :=
    MoveRequest.loopFrom_succ (by omega) inDest inSrc
      (byteMovable.destKnown destPage inDest)
      (byteMovable.srcKnown srcPage inSrc) current rounds
  simp only [sameOffset, count] at succ
  refine ⟨_, succ, copied.step movable (movable.step_le before) ?_ ?_⟩
  · intro k inStep
    rw [MoveRequest.step] at inStep
    rw [MoveRequest.destAt, ← Nat.add_assoc,
      PagedSpace.location_add inDest (by omega)]
  · intro k inStep
    rw [MoveRequest.step] at inStep
    rw [MoveRequest.srcAt, ← Nat.add_assoc,
      PagedSpace.location_add inSrc (by omega)]

/-- Steps over bytes whose offsets agree come to a place that none goes beyond. -/
theorem MoveRequest.Movable.reaches
    {current : Bytes}
    {rounds place : Nat}
    (movable : request.Movable system n)
    (inside : place ≤ n)
    (each : ∀ j < place, request.ByteMovable system j)
    (noneBeyond : ∀ j < place, j + request.step system j ≤ place)
    (before : i ≤ place)
    (copied : request.Copied system i bytes current)
    (enough : request.len - i < rounds) :
    ∃ after left,
      request.loopFrom system rounds current i =
          request.loopFrom system (left + 1) after place ∧
        request.Copied system place bytes after := by
  obtain ⟨distance, isDistance⟩ := Nat.exists_eq_add_of_le before
  induction distance using Nat.strong_induction_on
    generalizing i current rounds with
  | _ distance inductionHypothesis =>
      obtain ⟨rounds, rfl⟩ :=
        Nat.exists_eq_succ_of_ne_zero (Nat.ne_zero_of_lt enough)
      rcases Nat.eq_or_lt_of_le before with rfl | notYet
      · exact ⟨current, rounds, rfl, copied⟩
      · have inRange := movable.inRange
        have positive := movable.step_pos (show i < n by omega)
        have stays := noneBeyond i notYet
        obtain ⟨next, isRound, copiedNext⟩ :=
          movable.round (show i < n by omega) (each i notYet) copied rounds
        obtain ⟨after, left, reached, copiedPlace⟩ :=
          inductionHypothesis (distance - request.step system i) (by omega)
            stays copiedNext
            (show request.len - (i + request.step system i) < rounds by omega)
            (by omega)
        exact ⟨after, left, isRound.trans reached, copiedPlace⟩

/-- The loop ends at the end of the range, or at a byte without a page. -/
theorem MoveRequest.Movable.loopFrom_end
    (movable : request.Movable system n)
    (last :
      n < request.len → PageKnown system request.destPgt (request.dest + n))
    (current : Bytes)
    (rounds : Nat) :
    request.loopFrom system (rounds + 1) current n =
      some (request.len - n, current) := by
  have inRange := movable.inRange
  rw [MoveRequest.loopFrom, memmoveLoop]
  rcases Nat.eq_or_lt_of_le inRange with same | short
  · rw [if_pos (by omega), show request.len - n = 0 by omega]
  · rw [if_neg (by omega)]
    cases destPage : (request.destSpace system).page (request.dest + n) with
    | none =>
        obtain ⟨code, extracted⟩ := VmPgtbl.extract_of_no_page destPage
        simp only [extracted]
    | some page =>
        obtain ⟨mapping, extracted, base, -⟩ :=
          VmPgtbl.extract_of_page destPage
        have noSrc :
            (request.srcSpace system).page (request.src + n) = none := by
          rcases movable.ends short with noDest | noSrc
          · rw [destPage] at noDest
            cases noDest
          · exact noSrc
        obtain ⟨code, srcExtracted⟩ := VmPgtbl.extract_of_no_page noSrc
        simp only [extracted, base, last short page destPage, if_true,
          srcExtracted]

/-- Bytes with known pages and equal offsets are moved as they should. -/
theorem MoveRequest.Movable.loop_right
    (movable : request.Movable system n)
    (bytesMovable : request.BytesMovable system n)
    (bytes : Bytes) :
    ∃ final,
      request.loopFrom system (request.len + 1) bytes 0 =
          some (request.len - n, final) ∧
        request.Copied system n bytes final := by
  obtain ⟨after, left, reached, copied⟩ :=
    movable.reaches le_rfl bytesMovable.each
      (fun j before => movable.step_le before) (Nat.zero_le n) .none
      (show request.len - 0 < request.len + 1 by omega)
  exact ⟨after, reached.trans
    (movable.loopFrom_end bytesMovable.last after left), copied⟩

/-- A loop that moves up to a place leaves all but the bytes up to there. -/
theorem MoveRequest.loopFrom_kept
    {current final : Bytes}
    {rounds remain : Nat}
    (inRange : i ≤ request.len)
    (ended :
      request.loopFrom system rounds current i = some (remain, final)) :
    remain ≤ request.len - i ∧
      ∀ paddr,
        (∀ k, i ≤ k → k < request.len - remain →
          request.destAt system k ≠ some paddr) →
          final paddr = current paddr := by
  induction rounds generalizing i current with
  | zero =>
      cases ended
  | succ rounds inductionHypothesis =>
      rcases Nat.eq_or_lt_of_le inRange with atEnd | inside
      · rw [MoveRequest.loopFrom, memmoveLoop, if_pos (by omega)] at ended
        cases ended
        exact ⟨Nat.zero_le _, fun _ _ => rfl⟩
      · have remains : request.len - i ≠ 0 := by omega
        -- where the loop ends at this byte, nothing is moved
        have ends :
            some (request.len - i, current) = some (remain, final) →
              remain ≤ request.len - i ∧
                ∀ paddr,
                  (∀ k, i ≤ k → k < request.len - remain →
                    request.destAt system k ≠ some paddr) →
                    final paddr = current paddr := by
          intro same
          cases same
          exact ⟨le_rfl, fun _ _ => rfl⟩
        cases inDest : (request.destSpace system).page (request.dest + i) with
        | none =>
            obtain ⟨code, extracted⟩ := VmPgtbl.extract_of_no_page inDest
            rw [MoveRequest.loopFrom, memmoveLoop, if_neg remains,
              extracted] at ended
            exact ends ended
        | some destPage =>
            obtain ⟨destMapping, extracted, base, -⟩ :=
              VmPgtbl.extract_of_page inDest
            cases destKnown : system.known destPage.base with
            | false =>
                rw [MoveRequest.loopFrom, memmoveLoop, if_neg remains,
                  extracted] at ended
                simp only [base, destKnown, Bool.false_eq_true,
                  if_false] at ended
                cases ended
            | true =>
                cases inSrc :
                    (request.srcSpace system).page (request.src + i) with
                | none =>
                    obtain ⟨code, srcExtracted⟩ :=
                      VmPgtbl.extract_of_no_page inSrc
                    rw [MoveRequest.loopFrom, memmoveLoop, if_neg remains,
                      extracted] at ended
                    simp only [base, destKnown, if_true,
                      srcExtracted] at ended
                    exact ends ended
                | some srcPage =>
                    cases srcKnown : system.known srcPage.base with
                    | false =>
                        obtain ⟨srcMapping, srcExtracted, srcBase, -⟩ :=
                          VmPgtbl.extract_of_page inSrc
                        rw [MoveRequest.loopFrom, memmoveLoop, if_neg remains,
                          extracted] at ended
                        simp only [base, destKnown, if_true, srcExtracted,
                          srcBase, srcKnown, Bool.false_eq_true,
                          if_false] at ended
                        cases ended
                    | true =>
                        rw [MoveRequest.loopFrom_succ inside inDest inSrc
                          destKnown srcKnown] at ended
                        simp only at ended
                        obtain ⟨fewer, kept⟩ :=
                          inductionHypothesis (by omega) ended
                        refine ⟨by omega, fun paddr notDest => ?_⟩
                        rw [kept paddr fun k after before =>
                          notDest k (by omega) before]
                        refine memmove_of_ne fun offset inStep same => ?_
                        refine notDest (i + offset) (by omega) (by omega) ?_
                        rw [MoveRequest.destAt, ← Nat.add_assoc,
                          PagedSpace.location_add inDest (by omega), same]

/-- A destination page that the database does not know stops the loop. -/
theorem MoveRequest.loopFrom_of_destUnknown
    (inside : i < request.len)
    (unknown : ¬ PageKnown system request.destPgt (request.dest + i))
    (current : Bytes)
    (rounds : Nat) :
    request.loopFrom system rounds current i = none := by
  cases rounds with
  | zero =>
      rfl
  | succ rounds =>
      simp only [PageKnown, not_forall] at unknown
      obtain ⟨page, inDest, notKnown⟩ := unknown
      obtain ⟨mapping, extracted, base, -⟩ := VmPgtbl.extract_of_page inDest
      rw [MoveRequest.loopFrom, memmoveLoop, if_neg (by omega), extracted]
      simp only [base, notKnown, Bool.false_eq_true, if_false]

/-- A source page that the database does not know stops the loop. -/
theorem MoveRequest.Movable.loopFrom_of_srcUnknown
    (movable : request.Movable system n)
    (before : i < n)
    (unknown : ¬ PageKnown system request.srcPgt (request.src + i))
    (current : Bytes)
    (rounds : Nat) :
    request.loopFrom system rounds current i = none := by
  have inRange := movable.inRange
  by_cases destKnown : PageKnown system request.destPgt (request.dest + i)
  · cases rounds with
    | zero =>
        rfl
    | succ rounds =>
        simp only [PageKnown, not_forall] at unknown
        obtain ⟨page, inSrc, notKnown⟩ := unknown
        obtain ⟨⟨destPage, inDest⟩, -⟩ := movable.mapped i before
        obtain ⟨mapping, extracted, base, -⟩ := VmPgtbl.extract_of_page inSrc
        obtain ⟨destMapping, destExtracted, destBase, -⟩ :=
          VmPgtbl.extract_of_page inDest
        rw [MoveRequest.loopFrom, memmoveLoop, if_neg (by omega),
          destExtracted]
        simp only [destBase, destKnown destPage inDest, if_true, extracted,
          base, notKnown, Bool.false_eq_true, if_false]
  · exact MoveRequest.loopFrom_of_destUnknown (by omega) destKnown current
      rounds

/-- No step goes beyond the first byte that cannot be moved. -/
theorem MoveRequest.Movable.noneBeyond_of_first
    {first : Nat}
    (movable : request.Movable system n)
    (inside : first < n)
    (each : ∀ j < first, request.ByteMovable system j)
    (notMovable : ¬ request.ByteMovable system first) :
    ∀ j < first, j + request.step system j ≤ first := by
  intro j before
  by_contra beyond
  rw [MoveRequest.step] at beyond
  obtain ⟨⟨destPage, inDest⟩, srcPage, inSrc⟩ :=
    movable.mapped j (by omega)
  have destNext :=
    PagedSpace.page_add inDest
      (show first - j < (request.destSpace system).room (request.dest + j) by
        omega)
  have srcNext :=
    PagedSpace.page_add inSrc
      (show first - j < (request.srcSpace system).room (request.src + j) by
        omega)
  rw [show request.dest + j + (first - j) = request.dest + first by omega]
    at destNext
  rw [show request.src + j + (first - j) = request.src + first by omega]
    at srcNext
  obtain ⟨destKnown, srcKnown, sameOffset⟩ := each j before
  refine notMovable ⟨?_, ?_, ?_⟩
  · intro page inPage
    cases destNext.symm.trans inPage
    exact destKnown destPage inDest
  · intro page inPage
    cases srcNext.symm.trans inPage
    exact srcKnown srcPage inSrc
  · intro page inPage
    cases srcNext.symm.trans inPage
    exact sameOffset srcPage inSrc

/-- The memory with one byte that is not zero. -/
def oneByte (place : Nat) : Bytes :=
  fun paddr => if paddr = place then 1 else 0

/-- Where the offsets differ, the byte of another place is copied. -/
theorem MoveRequest.Movable.not_copied
    {current final : Bytes}
    {rounds place : Nat}
    {srcPage : Page}
    (movable : request.Movable system n)
    (srcApart :
      ∀ i < n, ∀ j < n,
        i ≠ j → request.srcAt system i ≠ request.srcAt system j)
    (before : i < n)
    (inSrc : (request.srcSpace system).page (request.src + i) = some srcPage)
    (isPlace : request.srcAt system i = some place)
    (differ : request.dest % srcPage.size ≠ request.src % srcPage.size)
    (destKnown : PageKnown system request.destPgt (request.dest + i))
    (srcKnown : PageKnown system request.srcPgt (request.src + i))
    (copied : request.Copied system i (oneByte place) current)
    (ended :
      request.loopFrom system (rounds + 1) current i =
        some (request.len - n, final)) :
    ¬ request.Copied system n (oneByte place) final := by
  intro right
  have inRange := movable.inRange
  obtain ⟨⟨destPage, inDest⟩, -⟩ := movable.mapped i before
  have destRoom := PagedSpace.room_pos inDest
  have srcPositive := (request.srcSpace system).positive inSrc
  have inSrcPage := Nat.mod_lt (request.dest + i) srcPositive
  rw [MoveRequest.loopFrom_succ (by omega) inDest inSrc
    (destKnown destPage inDest) (srcKnown srcPage inSrc)] at ended
  simp only at ended
  obtain ⟨-, kept⟩ := MoveRequest.loopFrom_kept (by omega) ended
  have destPlace :
      request.destAt system i =
        some (destPage.base + (request.dest + i) % destPage.size) :=
    PagedSpace.location_of_page inDest
  -- the byte of the destination is the one read at the wrong place
  have written :
      final (destPage.base + (request.dest + i) % destPage.size) =
        current (srcPage.base + (request.dest + i) % srcPage.size) := by
    rw [kept]
    · exact memmove_add (show 0 < _ by omega)
    · intro k after last
      rw [← destPlace]
      exact movable.destApart k (by omega) i before (by omega)
  have otherPlace :
      srcPage.base + (request.dest + i) % srcPage.size ≠ place := by
    intro same
    have srcPlace := isPlace
    rw [MoveRequest.srcAt, PagedSpace.location_of_page inSrc,
      Option.some.injEq] at srcPlace
    refine differ (Nat.ModEq.add_right_cancel' i ?_)
    rw [Nat.ModEq]
    omega
  have zero :
      current (srcPage.base + (request.dest + i) % srcPage.size) = 0 := by
    by_cases overwritten :
        ∃ j < i,
          request.destAt system j =
            some (srcPage.base + (request.dest + i) % srcPage.size)
    · obtain ⟨j, earlier, isDest⟩ := overwritten
      have copy := copied.copied j earlier
      obtain ⟨-, otherPage, inOther⟩ := movable.mapped j (by omega)
      have otherSrc :
          request.srcAt system j =
            some (otherPage.base + (request.src + j) % otherPage.size) :=
        PagedSpace.location_of_page inOther
      have apart := srcApart j (by omega) i before (by omega)
      rw [otherSrc, isPlace] at apart
      rw [isDest, otherSrc, Option.map_some, Option.map_some,
        Option.some.injEq] at copy
      rw [copy, oneByte, if_neg (fun same => apart (by rw [same]))]
    · rw [copied.kept _ fun j earlier same => overwritten ⟨j, earlier, same⟩,
        oneByte, if_neg otherPlace]
  have one := right.copied i before
  rw [destPlace, isPlace, Option.map_some, Option.map_some, written, zero,
    oneByte, if_pos rfl] at one
  cases one

/-- The loop that `vm_memmove` runs when it has the mutexes. -/
theorem MoveRequest.moveRight_iff_loop :
    request.MoveRight system n bytes ↔
      ∃ final,
        request.loopFrom system (request.len + 1) bytes 0 =
            some (request.len - n, final) ∧
          request.Copied system n bytes final := by
  constructor
  · intro right
    obtain ⟨final, ended, copied⟩ := right fun _ => .ok ()
    refine ⟨final, ?_, copied⟩
    by_cases same : request.destPgt = request.srcPgt
    · rw [vmMemmove, if_neg (not_not_intro same)] at ended
      obtain ⟨⟨remain, after⟩, looped, shape⟩ :=
        Option.map_eq_some_iff.mp ended
      simp only [Prod.mk.injEq] at shape
      obtain ⟨rfl, rfl, -⟩ := shape
      exact looped
    · rw [vmMemmove, if_pos same] at ended
      obtain ⟨⟨remain, after⟩, looped, shape⟩ :=
        Option.map_eq_some_iff.mp ended
      simp only [Prod.mk.injEq] at shape
      obtain ⟨rfl, rfl, -⟩ := shape
      exact looped
  · rintro ⟨final, looped, copied⟩ locked
    change
      memmoveLoop system request.destPgt request.srcPgt (request.len + 1) bytes
          request.dest request.src request.len =
        some (request.len - n, final) at looped
    cases destLocked : locked request.destPgt with
    | error code =>
        simp only [vmMemmove, destLocked]
    | ok =>
        cases srcLocked : locked request.srcPgt with
        | error code =>
            have different : request.destPgt ≠ request.srcPgt := by
              intro same
              rw [same, srcLocked] at destLocked
              cases destLocked
            simp only [vmMemmove, destLocked, srcLocked, if_pos different]
        | ok =>
            refine ⟨final, ?_, copied⟩
            by_cases same : request.destPgt = request.srcPgt
            · rw [same] at looped
              simp only [vmMemmove, srcLocked, ne_eq, same, not_true_eq_false,
                if_false, if_true, looped, Option.map_some]
            · simp only [vmMemmove, destLocked, ne_eq, same,
                not_false_eq_true, if_true, if_false, srcLocked, looped,
                Option.map_some]

/-- The first byte that cannot be moved is not moved in some memory. -/
theorem MoveRequest.Movable.not_right_of_first
    {first : Nat}
    (movable : request.Movable system n)
    (srcApart :
      ∀ i < n, ∀ j < n,
        i ≠ j → request.srcAt system i ≠ request.srcAt system j)
    (inside : first < n)
    (each : ∀ j < first, request.ByteMovable system j)
    (notMovable : ¬ request.ByteMovable system first) :
    ∃ bytes, ¬ request.MoveRight system n bytes := by
  obtain ⟨-, srcPage, inSrc⟩ := movable.mapped first inside
  obtain ⟨place, isPlace⟩ : ∃ place, request.srcAt system first = some place :=
    ⟨_, PagedSpace.location_of_page inSrc⟩
  obtain ⟨after, left, reached, copied⟩ :=
    movable.reaches inside.le each
      (movable.noneBeyond_of_first inside each notMovable) (Nat.zero_le first)
      .none (show request.len - 0 < request.len + 1 by omega)
  refine ⟨oneByte place, fun right => ?_⟩
  obtain ⟨final, looped, copiedFinal⟩ :=
    MoveRequest.moveRight_iff_loop.mp right
  have inRange := movable.inRange
  rw [reached] at looped
  by_cases destKnown : PageKnown system request.destPgt (request.dest + first)
  · by_cases srcKnown : PageKnown system request.srcPgt (request.src + first)
    · have differ : request.dest % srcPage.size ≠ request.src % srcPage.size := by
        intro same
        refine notMovable ⟨destKnown, srcKnown, fun page inPage => ?_⟩
        cases inSrc.symm.trans inPage
        exact same
      exact movable.not_copied srcApart inside inSrc isPlace differ destKnown
        srcKnown copied looped copiedFinal
    · rw [movable.loopFrom_of_srcUnknown inside srcKnown] at looped
      cases looped
  · rw [MoveRequest.loopFrom_of_destUnknown (by omega) destKnown] at looped
    cases looped

/-- Memories that are all moved right have movable bytes only. -/
theorem MoveRequest.Movable.bytesMovable_of_right
    (movable : request.Movable system n)
    (srcApart :
      ∀ i < n, ∀ j < n,
        i ≠ j → request.srcAt system i ≠ request.srcAt system j)
    (right : ∀ bytes, request.MoveRight system n bytes) :
    request.BytesMovable system n := by
  have each : ∀ i < n, request.ByteMovable system i := by
    intro i
    induction i using Nat.strong_induction_on with
    | _ i inductionHypothesis =>
        intro inside
        by_contra notMovable
        obtain ⟨bytes, notRight⟩ :=
          movable.not_right_of_first srcApart inside
            (fun j before => inductionHypothesis j before (by omega))
            notMovable
        exact notRight (right bytes)
  refine ⟨each, fun short => ?_⟩
  by_contra unknown
  obtain ⟨after, left, reached, -⟩ :=
    movable.reaches le_rfl each (fun j before => movable.step_le before)
      (Nat.zero_le n) .none (show request.len - 0 < request.len + 1 by omega)
  obtain ⟨final, looped, -⟩ :=
    MoveRequest.moveRight_iff_loop.mp (right fun _ => 0)
  rw [reached, MoveRequest.loopFrom_of_destUnknown short unknown] at looped
  cases looped

end Steps

/-- Two bytes from an offset in the second page to the first page. -/
def toFirstPage (offset : Nat) : MoveRequest where
  destPgt := 0
  dest := 16
  srcPgt := 0
  src := pageSize + offset
  len := 2

theorem movable_toFirstPage
    {offset : Nat}
    (known : offset = 3 ∨ offset = 16) :
    (toFirstPage offset).Movable twoPageSystem 2 := by
  rcases known with rfl | rfl
  · refine ⟨le_rfl, ?_, fun short => absurd short (by decide),
      by decide +kernel, by decide +kernel⟩
    intro i before
    interval_cases i
    · exact ⟨⟨_, rfl⟩, _, rfl⟩
    · exact ⟨⟨_, rfl⟩, _, rfl⟩
  · refine ⟨le_rfl, ?_, fun short => absurd short (by decide),
      by decide +kernel, by decide +kernel⟩
    intro i before
    interval_cases i
    · exact ⟨⟨_, rfl⟩, _, rfl⟩
    · exact ⟨⟨_, rfl⟩, _, rfl⟩

end RiscvWorkshop.Vm
