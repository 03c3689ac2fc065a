import Mathlib
import RiscvWorkshop.Kprintf

namespace RiscvWorkshop.Kprintf

/-!
# The bounds of the buffer

Only the loop that copies other text looks at the length of the buffer.  The output
stays inside if and only if every conversion that is reached has room for all that
it writes, and the format has no specification that its NUL cuts off.
-/

/-- The length of what a conversion writes. -/
def Conversion.size : Conversion → Nat
  | .char _ => 1
  | .string chars width _ _ => max chars.length width.toNat
  | .binary digits tmp width _ ladjust =>
      digits.length + if ladjust ∧ width ≠ 0 then (width - tmp).toNat else 0
  | .number digits sharp neg width _ _ =>
      max (numberLength digits sharp neg) width.toNat
  | .copied chars => chars.length

/-- A format is made of these. -/
inductive Part where
  | literal
  | conversion (size : Nat)
  | broken
  deriving DecidableEq

/-- The parts of a format, from a place in it on. -/
def parts (radix : Nat) : List (BitVec 8) → Place → Vars → List Part
  | [], place, v =>
      match scan radix 0 v place with
      | .literal => []
      | _ => [.broken]
  | ch :: fmt, place, v =>
      match scan radix ch v place with
      | .literal => .literal :: parts radix fmt .literal v
      | .again v => parts radix fmt .reswitch v
      | .digits n v => parts radix fmt (.digits n) v
      | .convert conversion v =>
          .conversion conversion.size :: parts radix fmt .literal v
      | .overflow => [.broken]

/--
Behind `count` characters each conversion finds room until a character outside of
them meets the end of the buffer.
-/
def Fits
    (last : Int)
    (room : Nat) : Nat → List Part → Prop
  | _, [] => True
  | count, .literal :: rest => last ≤ count ∨ Fits last room (count + 1) rest
  | count, .conversion size :: rest =>
      count + size ≤ room ∧ Fits last room (count + size) rest
  | _, .broken :: _ => False

instance decidableFits
    (last : Int)
    (room : Nat) : ∀ count rest, Decidable (Fits last room count rest)
  | _, [] => inferInstanceAs (Decidable True)
  | count, .literal :: rest =>
      have := decidableFits last room (count + 1) rest
      inferInstanceAs (Decidable (_ ∨ _))
  | count, .conversion size :: rest =>
      have := decidableFits last room (count + size) rest
      inferInstanceAs (Decidable (_ ∧ _))
  | _, .broken :: _ => inferInstanceAs (Decidable False)

/-- The length is positive as an `int`, and the parts of the format fit. -/
def Suits
    (len : Nat)
    (fmt : Option CString)
    (radix : Int)
    (ap : List VaArg) : Prop :=
  ∃ last,
    lastIndex len = some last ∧
      0 ≤ last ∧
      Fits last (min len intMax.toNat) 0
        (parts (checkedRadix radix) (fmt.getD nullfmt).chars .literal
          (Vars.initial ap))

/-- The characters and the terminator behind them lie in the buffer. -/
def Outcome.InBounds (len : Nat) : Outcome → Prop
  | .returned rc out => out.length ≤ len ∧ 0 ≤ rc ∧ rc ≤ (len : Int) - 1
  | .overread _ => False
  | .overflow => False

/-- The same of a formatted string. -/
structure Formatted.InBounds
    (len : Nat)
    (formatted : Formatted) : Prop where
  stored : formatted.stored.length ≤ len
  terminator : 0 ≤ formatted.terminator ∧ formatted.terminator < len
  rc : formatted.rc ≤ (len : Int) - 1

/-! ## The length of a conversion -/

theorem putPad_length
    (padchar : BitVec 8)
    (width : Int) :
    (putPad padchar width).1.length = width.toNat ∧
      (putPad padchar width).2 ≤ 0 := by
  rw [putPad]
  split
  case isTrue positive => exact ⟨List.length_replicate, (by decide : (-1 : Int) ≤ 0)⟩
  case isFalse notPositive => exact ⟨by rw [List.length_nil]; omega, by omega⟩

theorem padNumber_length
    (allowed : Bool)
    (padchar : BitVec 8)
    (tmp width : Int) :
    (padNumber allowed padchar tmp width).1.length =
      if allowed ∧ width ≠ 0 then (width - tmp).toNat else 0 := by
  rw [padNumber]
  split
  case isTrue => exact (putPad_length padchar (width - tmp)).1
  case isFalse => rfl

/-- Without a width there is no padding either. -/
theorem padNumber_true
    (padchar : BitVec 8)
    (tmp : Nat)
    (width : Int) :
    (padNumber true padchar tmp width).1.length = (width - tmp).toNat := by
  rw [padNumber_length]
  simp only [true_and]
  split <;> omega

/-- Padding that is allowed leaves no width for later padding. -/
theorem padNumber_left
    (padchar : BitVec 8)
    (tmp width : Int) :
    (padNumber true padchar tmp width).2 ≤ 0 := by
  rw [padNumber]
  split
  case isTrue => exact (putPad_length padchar (width - tmp)).2
  case isFalse isZero =>
    simp only [true_and, not_not] at isZero
    exact isZero.le

theorem padNumber_false
    (padchar : BitVec 8)
    (tmp width : Int) :
    padNumber false padchar tmp width = ([], width) := by
  simp only [padNumber, Bool.false_eq_true, false_and, if_false]

/-- A conversion writes as many characters as its size says. -/
theorem Conversion.text_length
    (conversion : Conversion) :
    conversion.text.length = conversion.size := by
  cases conversion with
  | char c => rfl
  | copied chars => rfl
  | string chars width padchar ladjust =>
      have length := (putPad_length padchar (width - chars.length)).1
      cases ladjust <;>
        simp only [text, size, List.length_append, length, if_true,
          Bool.false_eq_true, if_false, List.length_nil] <;>
        omega
  | binary digits tmp width padchar ladjust =>
      have length := padNumber_length ladjust padchar tmp width
      simp only [text, size, List.length_append, List.length_reverse, length]
  | number digits sharp neg width padchar ladjust =>
      have length :
          numberLength digits sharp neg =
            (if neg then [chr '-'] else []).length + sharp.length +
              digits.length := by
        cases neg <;> simp only [numberLength, List.length_nil,
          List.length_singleton, Bool.false_eq_true, if_true, if_false] <;> omega
      simp only [text, size, List.length_append, List.length_reverse]
      generalize numberLength digits sharp neg = tmp at *
      generalize (if neg then [chr '-'] else []) = minus at *
      cases ladjust with
      | true =>
          simp only [Bool.not_true, Bool.false_and, padNumber_false,
            padNumber_true, List.length_nil]
          omega
      | false =>
          simp only [Bool.not_false, Bool.true_and, padNumber_false,
            padNumber_true, List.length_nil]
          cases padchar != chr '0' with
          | true =>
              have left := padNumber_left padchar tmp width
              rw [padNumber_true]
              omega
          | false =>
              rw [padNumber_false, List.length_nil]
              omega

/-! ## Runs over a format -/

section Runs

variable {len radix room : Nat}
variable {fmt out after : List (BitVec 8)}
variable {place : Place}
variable {v : Vars}
variable {last rc : Int}

/-- What is put stands behind what was there, if `rc` can count it. -/
theorem put_eq
    {text : List (BitVec 8)} :
    put out text =
      if out.length + text.length > intMax.toNat then none
      else some (out ++ text) := by
  rw [put, List.length_append]
  exact if_congr (by rw [show intMax = 2147483647 from rfl]; omega) rfl rfl

/-- The last index fits the buffer. -/
theorem lastIndex_bounds
    (isLast : lastIndex len = some last)
    (notNegative : 0 ≤ last) :
    last < (min len intMax.toNat : Nat) := by
  have max : intMax.toNat = 2147483647 := rfl
  have size : (BitVec.ofNat 32 len).toNat = len % 2 ^ 32 := BitVec.toNat_ofNat len 32
  have isInt := BitVec.toInt_eq_toNat_cond (BitVec.ofNat 32 len)
  rw [size] at isInt
  rw [lastIndex] at isLast
  split at isLast
  · cases isLast
  · rw [Option.some.injEq] at isLast
    split at isInt <;> omega

/-- What is returned behind the characters put so far. -/
theorem finish_eq
    (isLast : lastIndex len = some last) :
    finish len out =
      .returned (if (out.length : Int) ≥ last then last else out.length) out := by
  rw [finish, isLast]

/-- A call that returns has a last index, and has put more characters. -/
theorem formatLoop_returned
    (result : formatLoop len radix fmt place v out = .returned rc after) :
    out.length ≤ after.length ∧
      ∃ last, lastIndex len = some last ∧ rc ≤ last := by
  have finished :
      ∀ out,
        finish len out = .returned rc after →
          out.length ≤ after.length ∧
            ∃ last, lastIndex len = some last ∧ rc ≤ last := by
    intro out result
    cases isLast : lastIndex len with
    | none =>
        rw [finish, isLast] at result
        cases result
    | some last =>
        rw [finish_eq isLast, Outcome.returned.injEq] at result
        obtain ⟨rfl, rfl⟩ := result
        exact ⟨le_rfl, last, rfl, by split <;> omega⟩
  induction fmt generalizing place v out with
  | nil =>
      rw [formatLoop] at result
      cases scanned : scan radix 0 v place with
      | literal =>
          simp only [scanned] at result
          exact finished out result
      | again v => simp only [scanned, reduceCtorEq] at result
      | digits n v => simp only [scanned, reduceCtorEq] at result
      | overflow => simp only [scanned, reduceCtorEq] at result
      | convert conversion v =>
          simp only [scanned] at result
          cases isPut : put out conversion.text <;>
            simp only [isPut, reduceCtorEq] at result
  | cons ch fmt inductionHypothesis =>
      rw [formatLoop] at result
      cases scanned : scan radix ch v place with
      | literal =>
          simp only [scanned] at result
          cases isLast : lastIndex len with
          | none => simp only [isLast, reduceCtorEq] at result
          | some last =>
              simp only [isLast] at result
              split at result
              · exact isLast ▸ finished out result
              · have more := inductionHypothesis result
                rw [List.length_append] at more
                exact isLast ▸ ⟨by omega, more.2⟩
      | again v =>
          simp only [scanned] at result
          exact inductionHypothesis result
      | digits n v =>
          simp only [scanned] at result
          exact inductionHypothesis result
      | overflow => simp only [scanned, reduceCtorEq] at result
      | convert conversion v =>
          simp only [scanned] at result
          cases isPut : put out conversion.text with
          | none => simp only [isPut, reduceCtorEq] at result
          | some behind =>
              simp only [isPut] at result
              have more := inductionHypothesis result
              rw [put] at isPut
              split at isPut
              · cases isPut
              · rw [Option.some.injEq] at isPut
                rw [← isPut, List.length_append] at more
                exact ⟨by omega, more.2⟩

/-- The buffer was left already when more was put than it holds. -/
theorem formatLoop_outside
    (outside : len < out.length) :
    ¬ (formatLoop len radix fmt place v out).InBounds len := by
  cases result : formatLoop len radix fmt place v out with
  | returned rc after =>
      rintro ⟨stored, -⟩
      exact absurd (formatLoop_returned result).1 (by omega)
  | overread after => exact id
  | overflow => exact id

/-- A return with what is inside the buffer is one inside the buffer. -/
theorem finish_inBounds
    (isLast : lastIndex len = some last)
    (notNegative : 0 ≤ last)
    (inside : out.length ≤ len) :
    (finish len out).InBounds len := by
  have bounds := lastIndex_bounds isLast notNegative
  rw [finish_eq isLast]
  refine ⟨inside, ?_, ?_⟩ <;> split <;> omega

/-- The output stays inside if and only if the parts of the rest fit. -/
theorem formatLoop_inBounds_iff
    (isLast : lastIndex len = some last)
    (notNegative : 0 ≤ last)
    (inside : out.length ≤ min len intMax.toNat) :
    (formatLoop len radix fmt place v out).InBounds len ↔
      Fits last (min len intMax.toNat) out.length (parts radix fmt place v) := by
  have bounds := lastIndex_bounds isLast notNegative
  induction fmt generalizing place v out with
  | nil =>
      rw [formatLoop, parts]
      cases scanned : scan radix 0 v place with
      | literal =>
          exact iff_of_true (finish_inBounds isLast notNegative (by omega)) trivial
      | again v => exact Iff.rfl
      | digits n v => exact Iff.rfl
      | overflow => exact Iff.rfl
      | convert conversion v =>
          dsimp only
          cases put out conversion.text with
          | none => exact Iff.rfl
          | some behind => exact Iff.rfl
  | cons ch fmt inductionHypothesis =>
      rw [formatLoop, parts]
      cases scanned : scan radix ch v place with
      | literal =>
          simp only [isLast, Fits]
          split
          case isTrue full =>
            exact iff_of_true (finish_inBounds isLast notNegative (by omega))
              (Or.inl full)
          case isFalse notFull =>
            have next := @inductionHypothesis (out ++ [ch]) .literal v
            rw [List.length_append, List.length_singleton] at next
            exact (next (by omega)).trans (or_iff_right notFull).symm
      | again v => exact inductionHypothesis inside
      | digits n v => exact inductionHypothesis inside
      | overflow => exact Iff.rfl
      | convert conversion v =>
          simp only [put_eq, conversion.text_length, Fits]
          have next := @inductionHypothesis (out ++ conversion.text) .literal v
          rw [List.length_append, conversion.text_length] at next
          by_cases room : out.length + conversion.size ≤ min len intMax.toNat
          · rw [if_neg (by omega), and_iff_right room]
            exact next room
          · refine iff_of_false ?_ fun fits => room fits.1
            by_cases uncounted :
                out.length + conversion.size > intMax.toNat
            · rw [if_pos uncounted]
              exact id
            · rw [if_neg uncounted]
              refine formatLoop_outside ?_
              rw [List.length_append, conversion.text_length]
              omega

/-- The whole call stays inside if and only if the format suits the buffer. -/
theorem kvprintf_inBounds_iff
    {format : Option CString}
    {base : Int}
    {ap : List VaArg}
    (positive : 0 < len) :
    (kvprintf len format base ap).InBounds len ↔ Suits len format base ap := by
  rw [kvprintf, if_neg positive.ne']
  constructor
  · intro inBounds
    cases result :
        formatLoop len (checkedRadix base) (format.getD nullfmt).chars .literal
          (Vars.initial ap) [] with
    | overread after =>
        rw [result] at inBounds
        exact False.elim inBounds
    | overflow =>
        rw [result] at inBounds
        exact False.elim inBounds
    | returned rc after =>
        obtain ⟨-, last, isLast, below⟩ := formatLoop_returned result
        have returned := inBounds
        rw [result] at returned
        have notNegative := returned.2.1.trans below
        exact
          ⟨last, isLast, notNegative,
            (formatLoop_inBounds_iff isLast notNegative (Nat.zero_le _)).mp inBounds⟩
  · rintro ⟨last, isLast, notNegative, fits⟩
    exact
      (formatLoop_inBounds_iff isLast notNegative (Nat.zero_le _)).mpr fits

end Runs

/-- What is stored for an outcome, with the NUL behind it, is in bounds like that. -/
theorem terminate_inBounds_iff
    {len : Nat}
    {outcome : Outcome} :
    (∃ formatted, terminate outcome = some formatted ∧ formatted.InBounds len) ↔
      outcome.InBounds len := by
  cases outcome with
  | overread out => exact iff_of_false (fun ⟨_, stored, _⟩ => nomatch stored) id
  | overflow => exact iff_of_false (fun ⟨_, stored, _⟩ => nomatch stored) id
  | returned rc out =>
      constructor
      · rintro ⟨formatted, isFormatted, inBounds⟩
        cases isFormatted
        exact ⟨inBounds.stored, inBounds.terminator.1, inBounds.rc⟩
      · rintro ⟨stored, low, high⟩
        exact ⟨_, rfl, stored, ⟨low, by dsimp only; omega⟩, high⟩

/--
For every format, every argument list and every buffer, what `kvprintf` writes and
returns is inside the buffer, and it never reads behind the NUL of the format, if
and only if the format suits the buffer; so it is for `ksnprintf` and `kprintf`.
-/
theorem kprintf_inBounds_iff
    {len : Nat}
    (positive : 0 < len)
    (fmt : Option CString)
    (radix : Int)
    (ap : List VaArg) :
    ((kvprintf len fmt radix ap).InBounds len ↔ Suits len fmt radix ap) ∧
      ((∃ formatted,
          ksnprintf len fmt ap = some formatted ∧ formatted.InBounds len) ↔
        Suits len fmt 10 ap) ∧
      ((∃ formatted,
          kprintf fmt ap = some formatted ∧ formatted.InBounds klibPrfbuflen) ↔
        Suits klibPrfbuflen fmt 10 ap) :=
  ⟨kvprintf_inBounds_iff positive,
    terminate_inBounds_iff.trans (kvprintf_inBounds_iff positive),
    terminate_inBounds_iff.trans (kvprintf_inBounds_iff (by decide))⟩

/-- A specification that is cut off is copied with the NUL, and more is read. -/
example :
    kvprintf klibPrfbuflen (some ⟨chars "%l", by decide⟩) 10 [] =
      .overread (chars "%l" ++ [0]) :=
  rfl

/-- The format `%s` and two letters. -/
def stringFormat : CString :=
  ⟨chars "%s", by decide⟩

def twoLetters : VaArg :=
  { bits := 0, string := some ⟨chars "ab", by decide⟩ }

/-- Two letters suit a buffer of three bytes. -/
theorem kprintf_inBounds_threeBytes :
    (kvprintf 3 stringFormat 10 [twoLetters]).InBounds 3 ∧
      (∃ formatted,
        ksnprintf 3 stringFormat [twoLetters] = some formatted ∧
          formatted.InBounds 3) ∧
      ∃ formatted,
        kprintf stringFormat [twoLetters] = some formatted ∧
          formatted.InBounds klibPrfbuflen := by
  obtain ⟨kvprintf, ksnprintf, kprintf⟩ :=
    kprintf_inBounds_iff (by decide : 0 < 3) stringFormat 10 [twoLetters]
  exact
    ⟨kvprintf.mpr ⟨2, rfl, by decide, by decide⟩,
      ksnprintf.mpr ⟨2, rfl, by decide, by decide⟩,
      kprintf.mpr ⟨255, rfl, by decide, by decide⟩⟩

/-- Both letters are written to a buffer of one byte. -/
theorem kvprintf_oneByte :
    ¬ ∀ len fmt radix ap,
      0 < len → (kvprintf len fmt radix ap).InBounds len := by
  intro always
  have result :
      kvprintf 1 (some stringFormat) 10 [twoLetters] =
        .returned 0 (chars "ab") := rfl
  have inBounds := always 1 stringFormat 10 [twoLetters] (by decide)
  rw [result] at inBounds
  exact absurd inBounds.1 (by decide)

end RiscvWorkshop.Kprintf
