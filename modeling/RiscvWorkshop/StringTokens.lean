import Mathlib
import RiscvWorkshop.StringSpan

namespace RiscvWorkshop.Klib

open Filter

/-!
# Cutting a string into tokens

`strtok_r` puts a null over the delimiter behind a token and saves the place
behind it.  It goes on from the saved pointer also when it is given a string.
Several strings may be cut in turns, each with its own saved pointer.
-/

/--
`strtok_r`: what it returns, what it saves and the memory.  No pointer is NULL,
and a call that reads there does not return.
-/
def strtokR
    (steps : Nat)
    (mem : Bytes)
    (str : Option Nat)
    (delim : Nat)
    (saveptr : Option Nat) : Option (Option Nat × Option Nat × Bytes) :=
  if str = none ∧ saveptr = none then
    some (none, none, mem)
  else
    saveptr.bind fun start =>
      (strspn steps mem start delim).bind fun skipped =>
        let str := start + skipped
        if mem str = 0 then
          some (none, none, mem)
        else
          (strcspn steps mem str delim).map fun length =>
            let save := str + length
            if mem save ≠ 0 then
              (some str, some (save + 1), Function.update mem save 0)
            else
              (some str, none, mem)

/-- A string that is cut, and the string of its delimiters. -/
structure TokenJob where
  str : Nat
  len : Nat
  delim : Nat
  delimLen : Nat
  set : List (BitVec 8)

/-- The memory, and the pointer of each job, which may have been called. -/
structure TokenState (Job : Type*) where
  mem : Bytes
  save : Job → Option Nat
  started : Job → Bool

section Calls

variable {Job : Type*}
variable [DecidableEq Job]
variable (steps : Nat)
variable (jobs : Job → TokenJob)

/-- The first call for a job passes its string, and the later ones NULL. -/
def TokenState.call
    (job : Job)
    (state : TokenState Job) : Option (Option Nat × TokenState Job) :=
  (strtokR steps state.mem
      (if state.started job then none else some (jobs job).str)
      (jobs job).delim (state.save job)).map fun (result, save, mem) =>
    (result,
      { mem
        save := Function.update state.save job save
        started := Function.update state.started job true })

/-- Calls for some jobs in turn, and what they return. -/
def tokenCalls :
    List Job → TokenState Job → Option (List (Option Nat) × TokenState Job)
  | [], state => some ([], state)
  | job :: later, state =>
      (state.call steps jobs job).bind fun (result, state) =>
        (tokenCalls later state).map fun (results, state) =>
          (result :: results, state)

end Calls

/-! ## The tokens of a string -/

/-- Where tokens begin, from a place that may be within one. -/
def tokenStarts
    (set : List (BitVec 8))
    (mem : Bytes) : Bool → Nat → Nat → List Nat
  | _, 0, _ => []
  | inToken, len + 1, p =>
      if mem p ∈ set then
        tokenStarts set mem false len (p + 1)
      else if inToken then
        tokenStarts set mem true len (p + 1)
      else
        p :: tokenStarts set mem true len (p + 1)

/--
A longest part of a string without delimiters; the string itself may begin
within a token.
-/
structure TokenFrom
    (set : List (BitVec 8))
    (mem : Bytes)
    (inToken : Bool)
    (s len p size : Nat) : Prop where
  begins : s ≤ p
  fits : p + size ≤ s + len
  some_char : 0 < size
  chars : ∀ i < size, mem (p + i) ∉ set
  left : inToken = false ∧ p = s ∨ s < p ∧ mem (p - 1) ∈ set
  right : p + size = s + len ∨ mem (p + size) ∈ set

section Tokens

variable {set : List (BitVec 8)}
variable {mem : Bytes}
variable {inToken : Bool}
variable {s len p size start stop : Nat}

/-- Before a place where a condition fails there is a first one. -/
theorem exists_span
    {cond : BitVec 8 → Prop}
    {bound : Nat}
    (ordered : start ≤ bound)
    (fails : ¬ cond (mem bound)) :
    ∃ stop ≤ bound, Span mem cond start stop := by
  classical
  have found : ∃ a, start ≤ a ∧ ¬ cond (mem a) := ⟨bound, ordered, fails⟩
  obtain ⟨after, ends⟩ := Nat.find_spec found
  refine ⟨Nat.find found, Nat.find_min' found ⟨ordered, fails⟩, ?_⟩
  exact
    { ordered := after
      inside := fun a above before => by
        by_contra fails
        exact Nat.find_min found before ⟨above, fails⟩
      ends := ends }

/-- A token goes up to a delimiter or the end of the string. -/
theorem exists_tokenSize
    (some_char : 0 < len)
    (char : mem s ∉ set) :
    ∃ size, TokenFrom set mem false s len s size := by
  classical
  have found : ∃ size, size = len ∨ mem (s + size) ∈ set := ⟨len, .inl rfl⟩
  have before : ∀ i < Nat.find found, mem (s + i) ∉ set :=
    fun i less delim => Nat.find_min found less (.inr delim)
  have fits : Nat.find found ≤ len := Nat.find_min' found (.inl rfl)
  have stops := Nat.find_spec found
  refine ⟨Nat.find found, le_rfl, Nat.add_le_add_left fits s, ?_, before,
    .inl ⟨rfl, rfl⟩, stops.imp_left fun same => by rw [same]⟩
  rcases Nat.eq_zero_or_pos (Nat.find found) with zero | positive
  · rw [zero] at stops
    rcases stops with none | delim
    · omega
    · exact absurd delim char
  · exact positive

/-- A token that begins later, seen from behind the first byte. -/
theorem tokenFrom_succ
    (later : s < p) :
    TokenFrom set mem inToken s (len + 1) p size ↔
      TokenFrom set mem (decide (mem s ∉ set)) (s + 1) len p size := by
  have begin : p = s + 1 → p - 1 = s := by omega
  constructor
  · intro token
    have delim : mem (p - 1) ∈ set := by
      rcases token.left with ⟨_, same⟩ | ⟨_, delim⟩
      · omega
      · exact delim
    refine
      { begins := later
        fits := Nat.le_trans token.fits (by omega)
        some_char := token.some_char
        chars := token.chars
        left := ?_
        right := token.right.imp_left fun same => by omega }
    rcases Nat.lt_or_eq_of_le (Nat.succ_le_of_lt later) with behind | rfl
    · exact .inr ⟨behind, delim⟩
    · rw [Nat.succ_sub_one] at delim
      exact .inl ⟨decide_eq_false (not_not_intro delim), rfl⟩
  · intro token
    refine
      { begins := later.le
        fits := Nat.le_trans token.fits (by omega)
        some_char := token.some_char
        chars := token.chars
        left := .inr ⟨later, ?_⟩
        right := token.right.imp_left fun same => by omega }
    rcases token.left with ⟨flag, same⟩ | ⟨_, delim⟩
    · rw [begin same]
      exact not_not.mp (of_decide_eq_false flag)
    · exact delim

/-- The first byte begins a token, or the token begins behind it. -/
theorem mem_tokenStarts_succ :
    p ∈ tokenStarts set mem inToken (len + 1) s ↔
      (p = s ∧ inToken = false ∧ mem s ∉ set) ∨
        p ∈ tokenStarts set mem (decide (mem s ∉ set)) len (s + 1) := by
  rw [tokenStarts]
  by_cases delim : mem s ∈ set
  · simp [delim]
  · cases inToken with
    | true => simp [delim]
    | false => simp [delim]

/-- The token starts are those of the longest parts without delimiters. -/
theorem mem_tokenStarts :
    p ∈ tokenStarts set mem inToken len s ↔
      ∃ size, TokenFrom set mem inToken s len p size := by
  induction len generalizing inToken s with
  | zero =>
      refine iff_of_false List.not_mem_nil ?_
      rintro ⟨size, token⟩
      have begins := token.begins
      have fits := token.fits
      have some_char := token.some_char
      omega
  | succ len inductionHypothesis =>
      rw [mem_tokenStarts_succ, inductionHypothesis]
      constructor
      · rintro (⟨rfl, rfl, char⟩ | ⟨size, token⟩)
        · exact exists_tokenSize (Nat.succ_pos len) char
        · exact ⟨size, (tokenFrom_succ token.begins).mpr token⟩
      · rintro ⟨size, token⟩
        rcases Nat.lt_or_eq_of_le token.begins with later | rfl
        · exact .inr ⟨size, (tokenFrom_succ later).mp token⟩
        · refine .inl ⟨rfl, ?_, token.chars 0 token.some_char⟩
          rcases token.left with ⟨first, _⟩ | ⟨later, _⟩
          · exact first
          · omega

/-- The tokens come in order. -/
theorem tokenStarts_sorted :
    (tokenStarts set mem inToken len s).Pairwise (· < ·) := by
  induction len generalizing inToken s with
  | zero =>
      exact List.Pairwise.nil
  | succ len inductionHypothesis =>
      rw [tokenStarts]
      split
      · exact inductionHypothesis
      · split
        · exact inductionHypothesis
        · refine List.pairwise_cons.mpr ⟨fun p member => ?_, inductionHypothesis⟩
          obtain ⟨size, token⟩ := mem_tokenStarts.mp member
          exact token.begins

/-- Behind its delimiters a string has its tokens. -/
theorem tokenStarts_skip
    (span : Span mem (· ∈ set) start stop)
    (fits : stop ≤ start + len) :
    tokenStarts set mem false len start =
      tokenStarts set mem false (len - (stop - start)) stop := by
  obtain ⟨count, rfl⟩ := Nat.exists_eq_add_of_le span.ordered
  rw [Nat.add_sub_cancel_left]
  induction count generalizing start len with
  | zero => rfl
  | succ count inductionHypothesis =>
      obtain ⟨rest, rfl⟩ : ∃ rest, len = rest + 1 :=
        ⟨len - 1, by omega⟩
      have first := span.inside start le_rfl (by omega)
      have place : start + (count + 1) = start + 1 + count := by omega
      rw [tokenStarts, if_pos first, place, Nat.add_sub_add_right]
      rw [place] at span fits
      exact inductionHypothesis (span.tail first).2 (by omega)

/-- Within a token no other one begins. -/
theorem tokenStarts_inToken
    (inside : ∀ a, start ≤ a → a < stop → mem a ∉ set)
    (ordered : start ≤ stop)
    (fits : stop ≤ start + len) :
    tokenStarts set mem true len start =
      tokenStarts set mem true (len - (stop - start)) stop := by
  obtain ⟨count, rfl⟩ := Nat.exists_eq_add_of_le ordered
  rw [Nat.add_sub_cancel_left]
  induction count generalizing start len with
  | zero => rfl
  | succ count inductionHypothesis =>
      obtain ⟨rest, rfl⟩ : ∃ rest, len = rest + 1 :=
        ⟨len - 1, by omega⟩
      have place : start + (count + 1) = start + 1 + count := by omega
      rw [tokenStarts, if_neg (inside start le_rfl (by omega)), if_pos rfl,
        place, Nat.add_sub_add_right]
      refine inductionHypothesis (fun a after before => ?_) (by omega) (by omega)
      exact inside a (by omega) (by omega)

/-- A token, and then the tokens behind the delimiter after it, if there is one. -/
theorem tokenStarts_token
    (inside : ∀ a, start ≤ a → a < stop → mem a ∉ set)
    (some_char : start < stop)
    (fits : stop ≤ start + len)
    (right : stop = start + len ∨ mem stop ∈ set) :
    tokenStarts set mem false len start =
      start ::
        tokenStarts set mem false (len - (stop - start) - 1) (stop + 1) := by
  obtain ⟨rest, rfl⟩ : ∃ rest, len = rest + 1 := ⟨len - 1, by omega⟩
  rw [tokenStarts, if_neg (inside start le_rfl some_char), if_neg (by decide),
    tokenStarts_inToken (fun a after => inside a (by omega)) some_char (by omega)]
  congr 1
  have count : rest - (stop - (start + 1)) = rest + 1 - (stop - start) := by
    omega
  rw [count]
  rcases Nat.eq_zero_or_pos (rest + 1 - (stop - start)) with none | some_byte
  · rw [none]
    rfl
  · obtain ⟨later, more⟩ := Nat.exists_eq_succ_of_ne_zero some_byte.ne'
    have delim : mem stop ∈ set := right.resolve_left (by omega)
    rw [more, tokenStarts, if_pos delim]
    rfl

end Tokens

end RiscvWorkshop.Klib
