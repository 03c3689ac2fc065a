import Mathlib
import RiscvWorkshop.StringTokens

namespace RiscvWorkshop.Klib

open Filter

/-!
# Cutting strings in turns

Whatever the order of the calls, each string yields its own tokens, provided
that the saved pointers lead to the first tokens of their strings.
-/

/-- What is left of the tokens of each job tells what the calls return. -/
def expectedTokens
    {Job : Type*}
    [DecidableEq Job]
    (rest : Job → List Nat) : List Job → List (Option Nat)
  | [] => []
  | job :: later =>
      (rest job).head? ::
        expectedTokens (Function.update rest job (rest job).tail) later

/-- The strings and the sets of delimiters lie apart. -/
structure JobsFit
    {Job : Type*}
    (jobs : Job → TokenJob)
    (mem : Bytes) : Prop where
  string : ∀ job, StringAt mem (jobs job).str (jobs job).len
  delims :
    ∀ job, SetAt mem (jobs job).delim (jobs job).delimLen (jobs job).set
  stringsApart :
    ∀ job other,
      job ≠ other →
        Apart (jobs job).str ((jobs job).len + 1) (jobs other).str
          ((jobs other).len + 1)
  delimsApart :
    ∀ job other,
      Apart (jobs job).str ((jobs job).len + 1) (jobs other).delim
        ((jobs other).delimLen + 1)

/-- The tokens of a job. -/
def TokenJob.tokens
    (job : TokenJob)
    (mem : Bytes) : List Nat :=
  tokenStarts job.set mem false job.len job.str

/-- What calls in an order are to return and to leave. -/
structure CallsRight
    {Job : Type*}
    [DecidableEq Job]
    (jobs : Job → TokenJob)
    (mem : Bytes)
    (order : List Job)
    (results : List (Option Nat))
    (after : Bytes) : Prop where
  returned : results = expectedTokens (fun job => (jobs job).tokens mem) order
  strings :
    ∀ job p size,
      TokenFrom (jobs job).set mem false (jobs job).str (jobs job).len p size →
        some p ∈ results →
          StringAt after p size ∧ ∀ i < size, after (p + i) = mem (p + i)
  kept :
    ∀ a,
      (∀ job, a < (jobs job).str ∨ (jobs job).str + (jobs job).len ≤ a) →
        after a = mem a

/-- In every order of the calls each job yields its tokens and then NULL. -/
def TokensRight
    {Job : Type*}
    [DecidableEq Job]
    (jobs : Job → TokenJob)
    (state : TokenState Job) : Prop :=
  ∀ order, ∀ᶠ steps in atTop, ∃ results final,
    tokenCalls steps jobs order state = some (results, final) ∧
      CallsRight jobs state.mem order results final.mem

/--
A saved pointer leads where the string does: the delimiters from either end at
the same place, or both at a null.
-/
def SaveLeads
    (mem : Bytes)
    (job : TokenJob)
    (save : Option Nat) : Prop :=
  ∃ p q r,
    save = some p ∧ Span mem (· ∈ job.set) p q ∧
      Span mem (· ∈ job.set) job.str r ∧ (q = r ∨ mem q = 0 ∧ mem r = 0)

/-! ## One call -/

section Call

variable {set : List (BitVec 8)}
variable {mem : Bytes}
variable {save : Option Nat}
variable {delim len p q stop : Nat}

/-- Enough steps for the loops of a call. -/
theorem eventually_enough
    (bound : Nat) :
    ∀ᶠ steps in atTop, bound < steps :=
  eventually_gt_atTop bound

/-- At a null there is no token. -/
theorem SetAt.strtokR_null
    (str : Option Nat)
    (chars : SetAt mem delim len set)
    (span : Span mem (· ∈ set) p q)
    (null : mem q = 0) :
    ∀ᶠ steps in atTop,
      strtokR steps mem str delim (some p) = some (none, none, mem) := by
  filter_upwards [eventually_enough len, eventually_enough (q - p)]
    with steps enough room
  rw [strtokR, if_neg (fun both => nomatch both.2), Option.bind_some,
    chars.strspn_eq span enough room, Option.bind_some]
  simp only [Nat.add_sub_cancel' span.ordered]
  rw [if_pos null]

/-- A token is cut at the delimiter behind it. -/
theorem SetAt.strtokR_token
    (str : Option Nat)
    (chars : SetAt mem delim len set)
    (span : Span mem (· ∈ set) p q)
    (char : mem q ≠ 0)
    (token : Span mem (fun c => c ≠ 0 ∧ c ∉ set) q stop) :
    ∀ᶠ steps in atTop,
      strtokR steps mem str delim (some p) =
        if mem stop ≠ 0 then
          some (some q, some (stop + 1), Function.update mem stop 0)
        else
          some (some q, none, mem) := by
  filter_upwards [eventually_enough len, eventually_enough (q - p),
    eventually_enough (stop - q)] with steps enough room more
  rw [strtokR, if_neg (fun both => nomatch both.2), Option.bind_some,
    chars.strspn_eq span enough room, Option.bind_some]
  simp only [Nat.add_sub_cancel' span.ordered]
  rw [if_neg char, chars.strcspn_eq token enough more, Option.map_some]
  simp only [Nat.add_sub_cancel' token.ordered]
  split <;> rfl

/-- What the first call returns is where the saved pointer leads. -/
theorem SetAt.strtokR_leads
    {steps s : Nat}
    {result after : Option Nat}
    {left : Bytes}
    (chars : SetAt mem delim len set)
    (enough : len < steps)
    (returned :
      strtokR steps mem (some s) delim save = some (result, after, left)) :
    ∃ p q,
      save = some p ∧ Span mem (· ∈ set) p q ∧
        (mem q = 0 ∧ result = none ∨ mem q ≠ 0 ∧ result = some q) := by
  rw [strtokR, if_neg (fun both => nomatch both.1)] at returned
  obtain ⟨p, rfl, called⟩ := Option.bind_eq_some_iff.mp returned
  obtain ⟨skipped, spanned, found⟩ := Option.bind_eq_some_iff.mp called
  refine ⟨p, p + skipped, rfl, chars.strspn_span enough spanned, ?_⟩
  simp only at found
  by_cases null : mem (p + skipped) = 0
  · rw [if_pos null] at found
    cases found
    exact .inl ⟨null, rfl⟩
  · rw [if_neg null] at found
    obtain ⟨length, _, cut⟩ := Option.map_eq_some_iff.mp found
    refine .inr ⟨null, ?_⟩
    split at cut
    · cases cut
      rfl
    · cases cut
      rfl

end Call

/-! ## The invariant of the calls -/

section Runs

variable {Job : Type*}
variable {jobs : Job → TokenJob}
variable {first : Bytes}
variable {state : TokenState Job}
variable {job : Job}

/-- What a job waits for: the tokens that are left, seen from its saved pointer. -/
inductive Awaits
    (first mem : Bytes)
    (job : TokenJob) :
    Bool → Option Nat → List Nat → Prop where
  | done : Awaits first mem job true none []
  | null
      {started : Bool}
      {p q : Nat}
      (span : Span mem (· ∈ job.set) p q)
      (ends : mem q = 0) :
      Awaits first mem job started (some p) []
  | token
      {started : Bool}
      {p q : Nat}
      (span : Span mem (· ∈ job.set) p q)
      (begins : job.str ≤ q)
      (before : q < job.str + job.len)
      (intact : ∀ a, q ≤ a → a ≤ job.str + job.len → mem a = first a)
      (left : q = job.str ∨ first (q - 1) ∈ job.set) :
      Awaits first mem job started (some p)
        (tokenStarts job.set first false (job.str + job.len - q) q)

/-- The memory between the calls: only delimiters within the strings are cut. -/
structure TokenMemory
    (jobs : Job → TokenJob)
    (first mem : Bytes)
    (returned : List (Option Nat)) : Prop where
  nulls : ∀ job, mem ((jobs job).str + (jobs job).len) = 0
  delims :
    ∀ job, SetAt mem (jobs job).delim (jobs job).delimLen (jobs job).set
  strings :
    ∀ job p size,
      TokenFrom (jobs job).set first false (jobs job).str (jobs job).len p
          size →
        some p ∈ returned →
          StringAt mem p size ∧ ∀ i < size, mem (p + i) = first (p + i)
  kept :
    ∀ a,
      (∀ job, a < (jobs job).str ∨ (jobs job).str + (jobs job).len ≤ a) →
        mem a = first a

/-- What holds between the calls, by what is left of the tokens of each job. -/
structure TokenSound
    (jobs : Job → TokenJob)
    (first : Bytes)
    (state : TokenState Job)
    (rest : Job → List Nat)
    (returned : List (Option Nat)) : Prop where
  memory : TokenMemory jobs first state.mem returned
  awaits :
    ∀ job,
      Awaits first state.mem (jobs job) (state.started job) (state.save job)
        (rest job)

variable {rest : Job → List Nat}
variable {returned : List (Option Nat)}
variable {mem : Bytes}

/-- A string or a place of one job is not within those of another. -/
theorem JobsFit.eq_of_inside
    {other : Job}
    {a : Nat}
    (fit : JobsFit jobs first)
    (inside : (jobs job).str ≤ a ∧ a ≤ (jobs job).str + (jobs job).len)
    (also : (jobs other).str ≤ a ∧ a ≤ (jobs other).str + (jobs other).len) :
    job = other := by
  by_contra different
  have apart := fit.stringsApart job other different
  rw [Apart] at apart
  omega

/-- A call that finds no more tokens leaves the memory. -/
theorem TokenMemory.cons_none
    (memory : TokenMemory jobs first mem returned) :
    TokenMemory jobs first mem (none :: returned) :=
  { memory with
    strings := fun job p size token member =>
      memory.strings job p size token
        ((List.mem_cons.mp member).resolve_left nofun) }

/-- Where a token is cut. -/
structure CutAt
    (first mem : Bytes)
    (job : TokenJob)
    (q stop : Nat) : Prop where
  span : Span mem (fun c => c ≠ 0 ∧ c ∉ job.set) q stop
  some_char : q < stop
  fits : stop ≤ job.str + job.len
  right : stop = job.str + job.len ∨ mem stop ∈ job.set
  token : TokenFrom job.set first false job.str job.len q (stop - q)

/-- A token of a job is cut at the delimiter behind it or the end of the string. -/
theorem JobsFit.exists_cut
    {q : Nat}
    (fit : JobsFit jobs first)
    (null : mem ((jobs job).str + (jobs job).len) = 0)
    (notDelim : mem q ∉ (jobs job).set)
    (begins : (jobs job).str ≤ q)
    (before : q < (jobs job).str + (jobs job).len)
    (intact :
      ∀ a, q ≤ a → a ≤ (jobs job).str + (jobs job).len → mem a = first a)
    (left : q = (jobs job).str ∨ first (q - 1) ∈ (jobs job).set) :
    ∃ stop, CutAt first mem (jobs job) q stop := by
  have inString : ∀ a, q ≤ a → a < (jobs job).str + (jobs job).len →
      first a ≠ 0 := by
    intro a after below
    have char :=
      (fit.string job).chars (a - (jobs job).str) (by omega)
    rwa [Nat.add_sub_cancel' (by omega)] at char
  have fails :
      ¬ (mem ((jobs job).str + (jobs job).len) ≠ 0 ∧
        mem ((jobs job).str + (jobs job).len) ∉ (jobs job).set) :=
    fun both => both.1 null
  obtain ⟨stop, fits, span⟩ :
      ∃ stop ≤ (jobs job).str + (jobs job).len,
        Span mem (fun c => c ≠ 0 ∧ c ∉ (jobs job).set) q stop :=
    exists_span before.le fails
  have some_char : q < stop := by
    rcases Nat.lt_or_eq_of_le span.ordered with less | rfl
    · exact less
    · refine absurd ⟨?_, notDelim⟩ span.ends
      rw [intact q le_rfl before.le]
      exact inString q le_rfl before
  have right : stop = (jobs job).str + (jobs job).len ∨
      mem stop ∈ (jobs job).set := by
    rcases Nat.lt_or_eq_of_le fits with less | same
    · refine .inr (not_not.mp fun notIn => span.ends ⟨?_, notIn⟩)
      rw [intact stop some_char.le less.le]
      exact inString stop some_char.le less
    · exact .inl same
  have place : q + (stop - q) = stop := Nat.add_sub_cancel' some_char.le
  refine ⟨stop, span, some_char, fits, right, ?_⟩
  refine
    { begins := begins
      fits := by rw [place]; exact fits
      some_char := Nat.sub_pos_of_lt some_char
      chars := fun i inside => ?_
      left := ?_
      right := ?_ }
  · rw [← intact (q + i) (by omega) (by omega)]
    exact (span.inside (q + i) (by omega) (by omega)).2
  · rcases Nat.lt_or_eq_of_le begins with later | same
    · exact .inr ⟨later, left.resolve_left (by omega)⟩
    · exact .inl ⟨rfl, same.symm⟩
  · rw [place]
    rcases Nat.lt_or_eq_of_le fits with less | same
    · rw [← intact stop some_char.le fits]
      exact right
    · exact .inl same

/-- A token has one size. -/
theorem TokenFrom.size_unique
    {set : List (BitVec 8)}
    {inToken also : Bool}
    {s len p size other : Nat}
    (token : TokenFrom set mem inToken s len p size)
    (again : TokenFrom set mem also s len p other) :
    size = other := by
  have fits := token.fits
  have otherFits := again.fits
  rcases Nat.lt_trichotomy size other with less | same | more
  · exact absurd (token.right.resolve_left (by omega)) (again.chars size less)
  · exact same
  · exact absurd (again.right.resolve_left (by omega)) (token.chars other more)

/-- The memory after a token was returned is as good as before. -/
theorem TokenMemory.cons_token
    {q stop : Nat}
    (fit : JobsFit jobs first)
    (memory : TokenMemory jobs first mem returned)
    (token :
      TokenFrom (jobs job).set first false (jobs job).str (jobs job).len q
        (stop - q))
    (string :
      StringAt mem q (stop - q) ∧
        ∀ i < stop - q, mem (q + i) = first (q + i)) :
    TokenMemory jobs first mem (some q :: returned) where
  nulls := memory.nulls
  delims := memory.delims
  strings := by
    intro other p size otherToken member
    rcases List.mem_cons.mp member with same | earlier
    · cases same
      have fits := otherToken.fits
      have some_char := otherToken.some_char
      have tokenFits := token.fits
      have sameJob : job = other :=
        fit.eq_of_inside ⟨token.begins, by omega⟩
          ⟨otherToken.begins, by omega⟩
      subst sameJob
      rw [← token.size_unique otherToken]
      exact string
    · exact memory.strings other p size otherToken earlier
  kept := memory.kept

/-- A delimiter within a string is overwritten with a null. -/
theorem TokenMemory.write
    {stop : Nat}
    (fit : JobsFit jobs first)
    (memory : TokenMemory jobs first mem returned)
    (inside :
      (jobs job).str ≤ stop ∧ stop < (jobs job).str + (jobs job).len)
    (delim : mem stop ∈ (jobs job).set) :
    TokenMemory jobs first (Function.update mem stop 0) returned where
  nulls := by
    intro other
    rw [Function.update_apply]
    split
    · rfl
    · exact memory.nulls other
  delims := by
    intro other
    have apart := fit.delimsApart job other
    rw [Apart] at apart
    have kept : ∀ i ≤ (jobs other).delimLen,
        Function.update mem stop 0 ((jobs other).delim + i) =
          mem ((jobs other).delim + i) :=
      fun i within => Function.update_of_ne (by omega) ..
    refine ⟨(memory.delims other).string.congr kept, fun c => ?_⟩
    rw [(memory.delims other).chars]
    exact
      exists_congr fun i => and_congr_right fun before => by
        rw [kept i before.le]
  strings := by
    intro other p size token member
    obtain ⟨string, same⟩ := memory.strings other p size token member
    have fits := token.fits
    have outside : ∀ i < size, p + i ≠ stop := by
      rintro i before rfl
      have sameJob : job = other :=
        fit.eq_of_inside ⟨inside.1, inside.2.le⟩
          ⟨Nat.le_trans token.begins (Nat.le_add_right p i), by omega⟩
      subst sameJob
      rw [same i before] at delim
      exact token.chars i before delim
    refine ⟨⟨fun i before => ?_, ?_⟩, fun i before => ?_⟩
    · rw [Function.update_of_ne (outside i before)]
      exact string.chars i before
    · rw [Function.update_apply]
      split
      · rfl
      · exact string.ends
    · rw [Function.update_of_ne (outside i before)]
      exact same i before
  kept := by
    intro a outside
    have notHere := outside job
    rw [Function.update_of_ne (by omega)]
    exact memory.kept a outside

/-- A span does not look at other bytes than its own. -/
theorem Span.of_same
    {cond : BitVec 8 → Prop}
    {after : Bytes}
    {start stop : Nat}
    (span : Span mem cond start stop)
    (same : ∀ a, start ≤ a → a ≤ stop → after a = mem a) :
    Span after cond start stop where
  ordered := span.ordered
  inside := by
    intro a above before
    rw [same a above before.le]
    exact span.inside a above before
  ends := by
    rw [same stop span.ordered le_rfl]
    exact span.ends

/-- What another job waits for is not changed by a null over a delimiter. -/
theorem Awaits.write
    {other : Job}
    {stop : Nat}
    {started : Bool}
    {save : Option Nat}
    {waits : List Nat}
    (fit : JobsFit jobs first)
    (memory : TokenMemory jobs first mem returned)
    (different : job ≠ other)
    (inside :
      (jobs job).str ≤ stop ∧ stop < (jobs job).str + (jobs job).len)
    (char : mem stop ≠ 0)
    (awaits : Awaits first mem (jobs other) started save waits) :
    Awaits first (Function.update mem stop 0) (jobs other) started save
      waits := by
  have notNull := (memory.delims other).null_notMem
  have elsewhere : ∀ {p q : Nat}, ¬ (p ≤ stop ∧ stop < q) → stop ≠ q →
      ∀ a, p ≤ a → a ≤ q → Function.update mem stop 0 a = mem a :=
    fun outside notEnd a above below =>
      Function.update_of_ne (by omega) ..
  cases awaits with
  | done => exact .done
  | @null started p q span ends =>
      have notEnd : stop ≠ q := by
        rintro rfl
        exact char ends
      by_cases within : p ≤ stop ∧ stop < q
      · -- the delimiters that are skipped end at the null
        have shorter :
            Span (Function.update mem stop 0) (· ∈ (jobs other).set) p stop :=
          { ordered := within.1
            inside := by
              intro a above before
              rw [Function.update_of_ne before.ne]
              exact span.inside a above (Nat.lt_trans before within.2)
            ends := by
              rw [Function.update_self]
              exact notNull }
        exact .null shorter (Function.update_self ..)
      · have same := elsewhere within notEnd
        refine .null (span.of_same same) ?_
        rw [same q span.ordered le_rfl]
        exact ends
  | @token started p q span begins before intact left =>
      have apart := fit.stringsApart job other different
      rw [Apart] at apart
      have outside : ¬ (p ≤ stop ∧ stop < q) := by
        intro within
        -- the null of the first string would be among the delimiters
        have delim :=
          span.inside ((jobs job).str + (jobs job).len) (by omega) (by omega)
        rw [memory.nulls job] at delim
        exact notNull delim
      have same := elsewhere outside (by omega)
      refine .token (span.of_same same) begins before (fun a above below => ?_)
        left
      rw [Function.update_of_ne (by omega)]
      exact intact a above below

/-- Behind a delimiter that was cut the job waits for the other tokens. -/
theorem TokenMemory.awaits_behind
    {q stop : Nat}
    (memory : TokenMemory jobs first mem returned)
    (begins : (jobs job).str ≤ q)
    (cut : CutAt first mem (jobs job) q stop)
    (intact :
      ∀ a, q ≤ a → a ≤ (jobs job).str + (jobs job).len → mem a = first a)
    (inside : stop < (jobs job).str + (jobs job).len)
    (delim : mem stop ∈ (jobs job).set) :
    Awaits first (Function.update mem stop 0) (jobs job) true (some (stop + 1))
      (tokenStarts (jobs job).set first false
        ((jobs job).str + (jobs job).len - (stop + 1)) (stop + 1)) := by
  have notNull := (memory.delims job).null_notMem
  have ordered := cut.some_char
  have same : ∀ a, stop + 1 ≤ a → a ≤ (jobs job).str + (jobs job).len →
      Function.update mem stop 0 a = first a := by
    intro a above below
    rw [Function.update_of_ne (by omega)]
    exact intact a (by omega) below
  have end_null :
      Function.update mem stop 0 ((jobs job).str + (jobs job).len) = 0 := by
    rw [Function.update_of_ne (by omega)]
    exact memory.nulls job
  have fails :
      Function.update mem stop 0 ((jobs job).str + (jobs job).len) ∉
        (jobs job).set := by
    rw [end_null]
    exact notNull
  obtain ⟨next, fits, span⟩ :
      ∃ next ≤ (jobs job).str + (jobs job).len,
        Span (Function.update mem stop 0) (· ∈ (jobs job).set) (stop + 1)
          next :=
    exists_span inside fails
  have inFirst : Span first (· ∈ (jobs job).set) (stop + 1) next :=
    span.of_same fun a above below =>
      (same a above (Nat.le_trans below fits)).symm
  have skip := span.ordered
  rw [tokenStarts_skip inFirst (by omega)]
  rcases Nat.lt_or_eq_of_le fits with before | rfl
  · have count : (jobs job).str + (jobs job).len - (stop + 1) -
        (next - (stop + 1)) = (jobs job).str + (jobs job).len - next := by
      omega
    rw [count]
    refine .token span (by omega) before
      (fun a above below => same a (by omega) below) (.inr ?_)
    rcases Nat.lt_or_eq_of_le skip with later | rfl
    · exact inFirst.inside (next - 1) (by omega) (by omega)
    · rw [Nat.add_sub_cancel, ← intact stop ordered.le inside.le]
      exact delim
  · rw [Nat.sub_self]
    exact .null span end_null

/-- A string begins with the token that its delimiters lead to, if they lead to one. -/
theorem JobsFit.tokens_of_span
    {r : Nat}
    (fit : JobsFit jobs first)
    (span : Span first (· ∈ (jobs job).set) (jobs job).str r) :
    r ≤ (jobs job).str + (jobs job).len ∧
      (jobs job).tokens first =
        tokenStarts (jobs job).set first false
          ((jobs job).str + (jobs job).len - r) r ∧
      (first r = 0 ↔ r = (jobs job).str + (jobs job).len) := by
  have ends := (fit.string job).ends
  have fits : r ≤ (jobs job).str + (jobs job).len := by
    by_contra beyond
    have delim := span.inside ((jobs job).str + (jobs job).len) (by omega)
      (by omega)
    rw [ends] at delim
    exact (fit.delims job).null_notMem delim
  have ordered := span.ordered
  refine ⟨fits, ?_, ?_, ?_⟩
  · rw [TokenJob.tokens, tokenStarts_skip span fits]
    congr 1
    omega
  · intro null
    by_contra before
    have char :=
      (fit.string job).chars (r - (jobs job).str) (by omega)
    rw [Nat.add_sub_cancel' ordered] at char
    exact char null
  · rintro rfl
    exact ends

/-- From saved pointers that lead to the tokens every job waits for its own. -/
theorem JobsFit.sound_of_leads
    (fit : JobsFit jobs state.mem)
    (leads : ∀ job, SaveLeads state.mem (jobs job) (state.save job)) :
    TokenSound jobs state.mem state (fun job => (jobs job).tokens state.mem)
      [] where
  memory :=
    { nulls := fun job => (fit.string job).ends
      delims := fit.delims
      strings := nofun
      kept := fun _ _ => rfl }
  awaits := by
    intro job
    obtain ⟨p, q, r, saved, span, own, same⟩ := leads job
    obtain ⟨fits, tokens, null⟩ := fit.tokens_of_span own
    rw [saved, tokens]
    by_cases ends : state.mem r = 0
    · have atEnd := null.mp ends
      rw [atEnd, Nat.sub_self]
      refine .null span ?_
      rcases same with rfl | ⟨nullHere, _⟩
      · exact ends
      · exact nullHere
    · obtain rfl := same.resolve_right fun both => ends both.2
      have before : q < (jobs job).str + (jobs job).len :=
        Nat.lt_of_le_of_ne fits fun same => ends (null.mpr same)
      refine .token span own.ordered before (fun _ _ _ => rfl) ?_
      rcases Nat.lt_or_eq_of_le own.ordered with later | same
      · exact .inr (own.inside (q - 1) (by omega) (by omega))
      · exact .inl same.symm

variable [DecidableEq Job]

/-- A call for a job leaves the others as they are. -/
theorem TokenSound.after
    {results : List (Option Nat)}
    {after : Bytes}
    {save : Option Nat}
    {waits : List Nat}
    (job : Job)
    (memory : TokenMemory jobs first after results)
    (own : Awaits first after (jobs job) true save waits)
    (others : ∀ other, job ≠ other →
      Awaits first after (jobs other) (state.started other) (state.save other)
        (rest other)) :
    TokenSound jobs first
      { mem := after
        save := Function.update state.save job save
        started := Function.update state.started job true }
      (Function.update rest job waits) results where
  memory := memory
  awaits := by
    intro other
    by_cases same : other = job
    · subst same
      simp only [Function.update_self]
      exact own
    · simp only [Function.update_of_ne same]
      exact others other (Ne.symm same)

/-- A call returns the next token of its job, and the others stay as they are. -/
theorem TokenSound.call
    (job : Job)
    (fit : JobsFit jobs first)
    (sound : TokenSound jobs first state rest returned) :
    ∃ after,
      TokenSound jobs first after (Function.update rest job (rest job).tail)
          ((rest job).head? :: returned) ∧
        ∀ᶠ steps in atTop,
          state.call steps jobs job = some ((rest job).head?, after) := by
  have memory := sound.memory
  have own := sound.awaits job
  have others := fun other (_ : job ≠ other) => sound.awaits other
  generalize isSave : state.save job = save at own
  generalize isStarted : state.started job = started at own
  generalize isRest : rest job = waits at own
  have noToken := TokenSound.after job memory.cons_none Awaits.done others
  cases own with
  | done =>
      refine ⟨_, noToken, Eventually.of_forall fun steps => ?_⟩
      rw [TokenState.call, isSave, isStarted]
      rfl
  | @null started p q span ends =>
      refine ⟨_, noToken, ?_⟩
      filter_upwards
        [(memory.delims job).strtokR_null
          (if started then none else some (jobs job).str) span ends]
        with steps called
      rw [TokenState.call, isSave, isStarted, called]
      rfl
  | @token started p q span begins before intact left =>
      obtain ⟨stop, cut⟩ :=
        fit.exists_cut (memory.nulls job) span.ends begins before intact left
      have ordered := cut.some_char
      have fits := cut.fits
      have char : state.mem q ≠ 0 := (cut.span.inside q le_rfl ordered).1
      have called :=
        (memory.delims job).strtokR_token
          (if started then none else some (jobs job).str) span char cut.span
      have right :
          stop = q + ((jobs job).str + (jobs job).len - q) ∨
            first stop ∈ (jobs job).set := by
        rw [Nat.add_sub_cancel' before.le, ← intact stop ordered.le fits]
        exact cut.right
      have tokens :=
        tokenStarts_token
          (fun a above below => by
            rw [← intact a above (by omega)]
            exact (cut.span.inside a above below).2)
          ordered (by omega) right
      have count :
          (jobs job).str + (jobs job).len - q - (stop - q) - 1 =
            (jobs job).str + (jobs job).len - (stop + 1) := by
        omega
      rw [tokens, List.head?_cons, List.tail_cons, count]
      have string :
          ∀ i < stop - q, state.mem (q + i) = first (q + i) :=
        fun i below => intact (q + i) (by omega) (by omega)
      by_cases ends : state.mem stop = 0
      · -- the token is the last one
        have isEnd : stop = (jobs job).str + (jobs job).len := by
          refine cut.right.resolve_right fun delim => ?_
          rw [ends] at delim
          exact (memory.delims job).null_notMem delim
        have place : q + (stop - q) = stop := Nat.add_sub_cancel' ordered.le
        have token :=
          memory.cons_token fit cut.token
            ⟨⟨fun i below => (cut.span.inside (q + i) (by omega) (by omega)).1,
              by rw [place]; exact ends⟩, string⟩
        rw [isEnd, Nat.sub_eq_zero_of_le (Nat.le_succ _)]
        have next := TokenSound.after job token Awaits.done others
        refine ⟨_, next, ?_⟩
        filter_upwards [called] with steps called
        rw [TokenState.call, isSave, isStarted, called,
          if_neg (not_not_intro ends)]
        rfl
      · have inside : stop < (jobs job).str + (jobs job).len := by
          refine Nat.lt_of_le_of_ne fits ?_
          rintro rfl
          exact ends (memory.nulls job)
        have delim : state.mem stop ∈ (jobs job).set :=
          cut.right.resolve_left inside.ne
        have within :
            (jobs job).str ≤ stop ∧
              stop < (jobs job).str + (jobs job).len :=
          ⟨Nat.le_trans begins ordered.le, inside⟩
        have written := memory.write fit within delim
        have place : q + (stop - q) = stop := Nat.add_sub_cancel' ordered.le
        have cutString :
            StringAt (Function.update state.mem stop 0) q (stop - q) ∧
              ∀ i < stop - q,
                Function.update state.mem stop 0 (q + i) = first (q + i) := by
          refine ⟨⟨fun i below => ?_, ?_⟩, fun i below => ?_⟩
          · rw [Function.update_of_ne (by omega)]
            exact (cut.span.inside (q + i) (by omega) (by omega)).1
          · rw [place]
            exact Function.update_self ..
          · rw [Function.update_of_ne (by omega)]
            exact string i below
        have next :=
          TokenSound.after job (written.cons_token fit cut.token cutString)
            (memory.awaits_behind begins cut intact inside delim)
            fun other different =>
              (others other different).write fit memory different within ends
        refine ⟨_, next, ?_⟩
        filter_upwards [called] with steps called
        rw [TokenState.call, isSave, isStarted, called, if_pos ends]
        rfl

/-- Calls in any order return what is left of the tokens of their jobs. -/
theorem TokenSound.calls
    (order : List Job)
    (fit : JobsFit jobs first)
    (sound : TokenSound jobs first state rest returned) :
    ∃ final left,
      TokenSound jobs first final left
          ((expectedTokens rest order).reverse ++ returned) ∧
        ∀ᶠ steps in atTop,
          tokenCalls steps jobs order state =
            some (expectedTokens rest order, final) := by
  induction order generalizing state rest returned with
  | nil =>
      exact ⟨state, rest, sound, Eventually.of_forall fun steps => rfl⟩
  | cons job later inductionHypothesis =>
      obtain ⟨middle, middleSound, called⟩ := sound.call job fit
      obtain ⟨final, left, finalSound, ran⟩ := inductionHypothesis middleSound
      refine ⟨final, left, ?_, ?_⟩
      · rw [expectedTokens, List.reverse_cons, List.append_assoc]
        exact finalSound
      · filter_upwards [called, ran] with steps called ran
        rw [tokenCalls, called, Option.bind_some]
        show (tokenCalls steps jobs later middle).map _ = _
        rw [ran]
        rfl

/-- What the first call returns tells whether its saved pointer leads to the token. -/
theorem JobsFit.leads_of_right
    (fit : JobsFit jobs state.mem)
    (fresh : state.started job = false)
    (right : TokensRight jobs state) :
    SaveLeads state.mem (jobs job) (state.save job) := by
  obtain ⟨steps, ⟨results, final, ran, callsRight⟩, enough⟩ :=
    ((right [job]).and (eventually_enough (jobs job).delimLen)).exists
  obtain ⟨⟨result, middle⟩, called, later⟩ := Option.bind_eq_some_iff.mp ran
  have isResult : result = ((jobs job).tokens state.mem).head? := by
    have returned := callsRight.returned
    cases later
    exact List.head_eq_of_cons_eq returned
  obtain ⟨⟨found, save, left⟩, cut, same⟩ := Option.map_eq_some_iff.mp called
  cases same
  rw [fresh] at cut
  obtain ⟨p, q, saved, span, leads⟩ :=
    (fit.delims job).strtokR_leads enough cut
  have notNull := (fit.delims job).null_notMem
  have ends := (fit.string job).ends
  obtain ⟨r, _, own⟩ :
      ∃ r ≤ (jobs job).str + (jobs job).len,
        Span state.mem (· ∈ (jobs job).set) (jobs job).str r :=
    exists_span (Nat.le_add_right _ _) (ends ▸ notNull)
  refine ⟨p, q, r, saved, span, own, ?_⟩
  obtain ⟨fits, tokens, null⟩ := fit.tokens_of_span own
  rw [tokens] at isResult
  rcases Nat.lt_or_eq_of_le fits with before | atEnd
  · obtain ⟨count, isCount⟩ : ∃ count,
        (jobs job).str + (jobs job).len - r = count + 1 :=
      ⟨_, (Nat.sub_add_cancel (Nat.sub_pos_of_lt before)).symm⟩
    rw [isCount, tokenStarts, if_neg own.ends, if_neg (by decide),
      List.head?_cons] at isResult
    rcases leads with ⟨_, none⟩ | ⟨_, some_token⟩
    · rw [none] at isResult
      cases isResult
    · rw [some_token] at isResult
      exact .inl (Option.some.inj isResult)
  · rw [atEnd, Nat.sub_self, tokenStarts, List.head?_nil] at isResult
    rcases leads with ⟨nullHere, _⟩ | ⟨_, some_token⟩
    · exact .inr ⟨nullHere, null.mpr atEnd⟩
    · rw [some_token] at isResult
      cases isResult

/--
The calls return the tokens of their strings, in every order of the calls,
exactly when each saved pointer leads to the first token at the beginning.
-/
theorem tokensRight_iff
    (fit : JobsFit jobs state.mem)
    (fresh : ∀ job, state.started job = false) :
    TokensRight jobs state ↔
      ∀ job, SaveLeads state.mem (jobs job) (state.save job) := by
  constructor
  · exact fun right job => fit.leads_of_right (fresh job) right
  · intro leads order
    obtain ⟨final, left, sound, ran⟩ :=
      (fit.sound_of_leads leads).calls order fit
    filter_upwards [ran] with steps ran
    refine ⟨_, final, ran, ?_⟩
    exact
      { returned := rfl
        strings := fun job p size token member =>
          sound.memory.strings job p size token (by simpa using member)
        kept := sound.memory.kept }

end Runs

/-! ## Two strings -/

/-- "a b" at 8, "c" at 16 and " " at 24. -/
def spacedAt8 : Bytes :=
  fun a =>
    if a = 8 then 97 else if a = 9 then 32 else if a = 10 then 98
    else if a = 16 then 99 else if a = 24 then 32 else 0

/-- The two strings are cut at blanks. -/
def spacedJobs : Bool → TokenJob
  | true => { str := 8, len := 3, delim := 24, delimLen := 1, set := [32] }
  | false => { str := 16, len := 1, delim := 24, delimLen := 1, set := [32] }

/-- The strings before any call, with a saved pointer each. -/
def spacedState (save : Bool → Option Nat) : TokenState Bool :=
  { mem := spacedAt8, save, started := fun _ => false }

theorem spacedJobs_fit : JobsFit spacedJobs spacedAt8 where
  string := by
    rintro (_ | _)
    · exact { chars := by decide, ends := rfl }
    · exact { chars := by decide, ends := rfl }
  delims := by
    have blank : SetAt spacedAt8 24 1 [32] :=
      { string := { chars := by decide, ends := rfl }
        chars := by decide }
    rintro (_ | _)
    · exact blank
    · exact blank
  stringsApart := by
    rintro (_ | _) (_ | _) different
    · exact absurd rfl different
    · exact .inr (by decide)
    · exact .inl (by decide)
    · exact absurd rfl different
  delimsApart := by
    rintro (_ | _) (_ | _)
    · exact .inl (by decide)
    · exact .inl (by decide)
    · exact .inl (by decide)
    · exact .inl (by decide)

/-- No delimiter begins the strings. -/
theorem spacedJobs_span
    (job : Bool) :
    Span spacedAt8 (· ∈ (spacedJobs job).set) (spacedJobs job).str
      (spacedJobs job).str := by
  refine Span.refl ?_
  revert job
  decide

/-- Cut from their beginnings the two strings yield their tokens. -/
theorem tokensRight_fromStart :
    TokensRight spacedJobs
      (spacedState fun job => some (spacedJobs job).str) := by
  refine (tokensRight_iff spacedJobs_fit fun _ => rfl).mpr fun job => ?_
  exact
    ⟨_, _, _, rfl, spacedJobs_span job, spacedJobs_span job, .inl rfl⟩

/-- With a pointer that was left in "c" the first call for "a b" returns "c". -/
theorem tokens_not_right :
    ((strtokR 3 spacedAt8 (some 8) 24 (some 16)).map fun result => result.1) =
        some (some 16) ∧
      ¬ TokensRight spacedJobs (spacedState fun _ => some 16) := by
  refine ⟨by decide, fun right => ?_⟩
  have fresh : (spacedState fun _ => some 16).started true = false := rfl
  obtain ⟨p, q, r, saved, span, own, leads⟩ :=
    spacedJobs_fit.leads_of_right fresh right
  cases saved
  cases (spacedJobs_span true).unique own
  cases (spacedJobs_span false).unique span
  revert leads
  decide

end RiscvWorkshop.Klib
