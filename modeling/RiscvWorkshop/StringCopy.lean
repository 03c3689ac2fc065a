import Mathlib
import RiscvWorkshop.Memmove

namespace RiscvWorkshop.Klib

/-!
# Copying strings

`strncpy` and `strncat` move their destination pointer along.  The first keeps
its beginning to return it; neither pads what is left of its count.
-/

/-- A string of a length: its bytes are not null, and a null follows. -/
structure StringAt
    (mem : Bytes)
    (s len : Nat) : Prop where
  chars : ∀ i < len, mem (s + i) ≠ 0
  ends : mem (s + len) = 0

/-- Two ranges of memory have no byte in common. -/
def Apart (first size second other : Nat) : Prop :=
  first + size ≤ second ∨ second + other ≤ first

/-- The loop of `strncpy`. -/
def strncpyLoop : Nat → Bytes → Nat → Nat → Bytes
  | 0, mem, _, _ => mem
  | count + 1, mem, dest, src =>
      if mem src = 0 then
        mem
      else
        strncpyLoop count (Function.update mem dest (mem src)) (dest + 1)
          (src + 1)

/-- `strncpy`, with what it returns and the memory after it. -/
def strncpy
    (mem : Bytes)
    (dest src count : Nat) : Nat × Bytes :=
  if count = 0 then
    (dest, mem)
  else
    (dest, strncpyLoop count mem dest src)

/-- The first loop of `strncat`, which goes behind the null of the destination. -/
def strncatSkip : Nat → Bytes → Nat → Option Nat
  | 0, _, _ => none
  | steps + 1, mem, dest =>
      if mem dest ≠ 0 then
        strncatSkip steps mem (dest + 1)
      else
        some (dest + 1)

/-- The second loop of `strncat`, with the destination pointer at its end. -/
def strncatLoop : Nat → Bytes → Nat → Nat → Nat × Bytes
  | 0, mem, dest, src =>
      let mem := Function.update mem dest (mem src)
      (dest, Function.update mem dest 0)
  | n + 1, mem, dest, src =>
      let mem := Function.update mem dest (mem src)
      if mem src = 0 then
        (dest, Function.update mem dest 0)
      else
        strncatLoop n mem (dest + 1) (src + 1)

/-- `strncat`; the first argument bounds the turns of its first loop. -/
def strncat
    (steps : Nat)
    (mem : Bytes)
    (dest src n : Nat) : Option (Nat × Bytes) :=
  (strncatSkip steps mem dest).map fun dest =>
    strncatLoop n mem (dest - 1) src

/-! ## Strings in memory -/

section Strings

variable {mem after : Bytes}
variable {s dest src n len : Nat}

/-- An empty string begins with its null. -/
theorem StringAt.len_eq_zero
    (string : StringAt mem s len)
    (null : mem s = 0) :
    len = 0 := by
  by_contra some_char
  exact string.chars 0 (Nat.pos_of_ne_zero some_char) null

/-- A string whose first byte is not null has a shorter one behind it. -/
theorem StringAt.tail
    (string : StringAt mem s len)
    (char : mem s ≠ 0) :
    ∃ rest, len = rest + 1 ∧ StringAt mem (s + 1) rest := by
  cases len with
  | zero =>
      exact absurd string.ends char
  | succ rest =>
      refine ⟨rest, rfl, fun i before => ?_, ?_⟩
      · rw [Nat.add_right_comm, Nat.add_assoc]
        exact string.chars (i + 1) (Nat.succ_lt_succ before)
      · rw [Nat.add_right_comm, Nat.add_assoc]
        exact string.ends

/-- A string stays where its bytes stay. -/
theorem StringAt.congr
    (string : StringAt mem s len)
    (same : ∀ i ≤ len, after (s + i) = mem (s + i)) :
    StringAt after s len where
  chars := fun i before => same i before.le ▸ string.chars i before
  ends := same len le_rfl ▸ string.ends

/-- A string has one length. -/
theorem StringAt.len_unique
    {other : Nat}
    (string : StringAt mem s len)
    (again : StringAt mem s other) :
    len = other := by
  rcases Nat.lt_trichotomy len other with less | same | more
  · exact absurd string.ends (again.chars len less)
  · exact same
  · exact absurd again.ends (string.chars other more)

/-- A write in front of a string leaves it. -/
theorem StringAt.update
    (byte : BitVec 8)
    (string : StringAt mem s len)
    (outside : ∀ i ≤ len, s + i ≠ dest) :
    StringAt (Function.update mem dest byte) s len :=
  string.congr fun i inside => Function.update_of_ne (outside i inside) ..

/-! ## What the loops do -/

/-- `strncpy` moves the string, or as much of it as it may. -/
theorem strncpyLoop_moved
    (count : Nat)
    (source : StringAt mem src len)
    (apart : Apart dest count src (len + 1)) :
    Moved mem (strncpyLoop count mem dest src) dest src (min count len) := by
  induction count generalizing mem dest src len with
  | zero =>
      rw [Nat.zero_min]
      exact Moved.none mem dest src
  | succ count inductionHypothesis =>
      rw [strncpyLoop]
      split
      case isTrue null =>
        rw [source.len_eq_zero null, Nat.min_zero]
        exact Moved.none mem dest src
      case isFalse char =>
        obtain ⟨rest, rfl, behind⟩ := source.tail char
        rw [Apart] at apart
        rw [Nat.succ_min_succ]
        refine Moved.first (fun i before => by omega) ?_
        refine inductionHypothesis (behind.update _ fun i inside => by omega) ?_
        rw [Apart]
        omega

/-- `strncpy` moves the string, whatever its count. -/
theorem strncpy_moved
    (source : StringAt mem src len)
    (apart : Apart dest n src (len + 1)) :
    (strncpy mem dest src n).1 = dest ∧
      Moved mem (strncpy mem dest src n).2 dest src (min n len) := by
  rw [strncpy]
  split
  case isTrue none =>
    rw [none, Nat.zero_min]
    exact ⟨rfl, Moved.none mem dest src⟩
  case isFalse some_bytes =>
    exact ⟨rfl, strncpyLoop_moved n source apart⟩

/-- The first loop of `strncat` ends behind the null. -/
theorem strncatSkip_eq
    (string : StringAt mem dest len) :
    strncatSkip (len + 1) mem dest = some (dest + len + 1) := by
  induction len generalizing dest with
  | zero =>
      have null : mem dest = 0 := string.ends
      rw [strncatSkip, if_neg (not_not_intro null), Nat.add_zero]
  | succ len inductionHypothesis =>
      have char : mem dest ≠ 0 := string.chars 0 (Nat.succ_pos len)
      obtain ⟨rest, same, behind⟩ := string.tail char
      cases same
      rw [strncatSkip, if_pos char, inductionHypothesis behind]
      congr 1
      omega

/-- More turns do not change where the first loop ends. -/
theorem strncatSkip_end
    {steps stop : Nat}
    (string : StringAt mem dest len)
    (skipped : strncatSkip steps mem dest = some stop) :
    stop = dest + len + 1 := by
  induction steps generalizing dest len with
  | zero =>
      cases skipped
  | succ steps inductionHypothesis =>
      rw [strncatSkip] at skipped
      split at skipped
      case isTrue char =>
        obtain ⟨rest, rfl, behind⟩ := string.tail char
        rw [inductionHypothesis behind skipped]
        omega
      case isFalse null =>
        cases skipped
        rw [string.len_eq_zero (not_not.mp null)]

/-- The second loop moves the string and puts a null behind it. -/
theorem strncatLoop_eq
    (n : Nat)
    (source : StringAt mem src len)
    (apart : Apart dest (min n len + 1) src (len + 1)) :
    ∃ middle,
      Moved mem middle dest src (min n len) ∧
        strncatLoop n mem dest src =
          (dest + min n len,
            Function.update middle (dest + min n len) 0) := by
  rw [Apart] at apart
  induction n generalizing mem dest src len with
  | zero =>
      refine ⟨mem, ?_, ?_⟩
      · rw [Nat.zero_min]
        exact Moved.none mem dest src
      · rw [Nat.zero_min, Nat.add_zero, strncatLoop, Function.update_idem]
  | succ n inductionHypothesis =>
      have kept : Function.update mem dest (mem src) src = mem src :=
        Function.update_of_ne (by omega) ..
      rw [strncatLoop]
      simp only [kept]
      split
      case isTrue null =>
        refine ⟨mem, ?_, ?_⟩
        · rw [source.len_eq_zero null, Nat.min_zero]
          exact Moved.none mem dest src
        · rw [source.len_eq_zero null, Nat.min_zero, Nat.add_zero,
            Function.update_idem]
      case isFalse char =>
        obtain ⟨rest, rfl, behind⟩ := source.tail char
        rw [Nat.succ_min_succ] at apart ⊢
        have next :
            StringAt (Function.update mem dest (mem src)) (src + 1) rest :=
          behind.update (mem src) fun i inside => by omega
        have apartNext :
            dest + 1 + (min n rest + 1) ≤ src + 1 ∨
              src + 1 + (rest + 1) ≤ dest + 1 := by omega
        obtain ⟨middle, moved, looped⟩ := inductionHypothesis next apartNext
        refine ⟨middle, Moved.first (fun i before => by omega) moved, ?_⟩
        rw [looped]
        rw [show dest + 1 + min n rest = dest + (min n rest + 1) by omega]

/-! ## What a call is to leave -/

/-- What `strncpy` is to do: the whole string with its null, where it fits. -/
structure CopyRight
    (mem : Bytes)
    (dest src n len : Nat)
    (result : Nat × Bytes) : Prop where
  returned : result.1 = dest
  copied : ∀ i < min n len, result.2 (dest + i) = mem (src + i)
  ended : len < n → StringAt result.2 dest len
  kept : ∀ a, a < dest ∨ dest + n ≤ a → result.2 a = mem a

/-- What `strncat` is to do behind a string of a length. -/
structure CatRight
    (mem : Bytes)
    (dest destLen src n len : Nat)
    (result : Nat × Bytes) : Prop where
  returned : result.1 = dest
  appended :
    ∀ i < min n len, result.2 (dest + destLen + i) = mem (src + i)
  ended : StringAt result.2 dest (destLen + min n len)
  kept :
    ∀ a, a < dest + destLen ∨ dest + destLen + min n len < a →
      result.2 a = mem a

/-- `strncpy` leaves a string exactly if it need not or its null is there. -/
theorem copyRight_iff
    (source : StringAt mem src len)
    (apart : Apart dest n src (len + 1)) :
    CopyRight mem dest src n len (strncpy mem dest src n) ↔
      n ≤ len ∨ mem (dest + len) = 0 := by
  obtain ⟨returned, moved⟩ := strncpy_moved source apart
  have nullKept :
      len < n → (strncpy mem dest src n).2 (dest + len) = mem (dest + len) :=
    fun short => moved.kept _ (.inr (by omega))
  constructor
  · intro right
    rcases Nat.lt_or_ge len n with short | full
    · refine .inr ?_
      rw [← nullKept short]
      exact (right.ended short).ends
    · exact .inl full
  · intro condition
    refine
      { returned := returned
        copied := moved.copied
        ended := fun short => ?_
        kept := fun a outside => moved.kept a (by omega) }
    refine ⟨fun i before => ?_, ?_⟩
    · rw [moved.copied i (by omega)]
      exact source.chars i before
    · rw [nullKept short]
      exact condition.resolve_left (Nat.not_le.mpr short)

/-- `strncat` appends the string; the pointer that it returns is at the end. -/
theorem strncatLoop_appends
    {destLen : Nat}
    (source : StringAt mem src len)
    (target : StringAt mem dest destLen)
    (apart : Apart dest (destLen + min n len + 1) src (len + 1)) :
    (strncatLoop n mem (dest + destLen) src).1 = dest + destLen + min n len ∧
      CatRight mem dest destLen src n len
        (dest, (strncatLoop n mem (dest + destLen) src).2) := by
  rw [Apart] at apart
  have apartEnd :
      Apart (dest + destLen) (min n len + 1) src (len + 1) := by
    rw [Apart]
    omega
  obtain ⟨middle, moved, looped⟩ := strncatLoop_eq n source apartEnd
  rw [looped]
  refine ⟨rfl, ?_⟩
  have copied : ∀ i < min n len,
      Function.update middle (dest + destLen + min n len) 0
        (dest + destLen + i) = mem (src + i) := by
    intro i before
    rw [Function.update_of_ne (by omega)]
    exact moved.copied i before
  have kept : ∀ a, a < dest + destLen ∨ dest + destLen + min n len < a →
      Function.update middle (dest + destLen + min n len) 0 a = mem a := by
    intro a outside
    rw [Function.update_of_ne (by omega)]
    exact moved.kept a (by omega)
  refine
    { returned := rfl
      appended := copied
      ended := ⟨fun i before => ?_, ?_⟩
      kept := kept }
  · show Function.update middle _ 0 (dest + i) ≠ 0
    rcases Nat.lt_or_ge i destLen with old | appended
    · rw [kept _ (.inl (by omega))]
      exact target.chars i old
    · obtain ⟨j, rfl⟩ := Nat.exists_eq_add_of_le appended
      rw [← Nat.add_assoc, copied j (by omega)]
      exact source.chars j (by omega)
  · show Function.update middle _ 0 (dest + (destLen + min n len)) = 0
    rw [← Nat.add_assoc]
    exact Function.update_self ..

/-- `strncat` returns where it appended, and so its argument only for nothing. -/
theorem catRight_iff
    {destLen : Nat}
    (source : StringAt mem src len)
    (target : StringAt mem dest destLen)
    (apart : Apart dest (destLen + min n len + 1) src (len + 1)) :
    (∃ steps result,
      strncat steps mem dest src n = some result ∧
        CatRight mem dest destLen src n len result) ↔
      destLen = 0 ∧ (n = 0 ∨ len = 0) := by
  obtain ⟨returned, appends⟩ := strncatLoop_appends source target apart
  constructor
  · rintro ⟨steps, result, called, right⟩
    obtain ⟨stop, skipped, rfl⟩ := Option.map_eq_some_iff.mp called
    rw [strncatSkip_end target skipped, Nat.add_sub_cancel] at right
    have same := right.returned
    rw [returned] at same
    omega
  · intro condition
    refine ⟨destLen + 1, strncatLoop n mem (dest + destLen) src, ?_, ?_⟩
    · rw [strncat, strncatSkip_eq target]
      rfl
    · have isDest :
          (strncatLoop n mem (dest + destLen) src).1 = dest := by
        rw [returned]
        omega
      exact { appends with returned := isDest }

/--
`strncpy` and `strncat` do what they are to do on these strings: the first does
not put the null of a shorter string, and the second returns the end.
-/
theorem copies_right_iff
    (source : StringAt mem src len) :
    (Apart dest n src (len + 1) →
        (CopyRight mem dest src n len (strncpy mem dest src n) ↔
          n ≤ len ∨ mem (dest + len) = 0)) ∧
      ∀ destLen,
        StringAt mem dest destLen →
          Apart dest (destLen + min n len + 1) src (len + 1) →
            ((∃ steps result,
                strncat steps mem dest src n = some result ∧
                  CatRight mem dest destLen src n len result) ↔
              destLen = 0 ∧ (n = 0 ∨ len = 0)) :=
  ⟨copyRight_iff source, fun _ => catRight_iff source⟩

end Strings

/-- The string "a" at 8, an empty one at 0, and ones elsewhere. -/
def letterAt8 : Bytes :=
  fun a => if a = 8 then 97 else if a = 9 ∨ a = 0 then 0 else 1

theorem letterAt8_string : StringAt letterAt8 8 1 where
  chars := by decide
  ends := rfl

theorem letterAt8_empty : StringAt letterAt8 0 0 where
  chars := by decide
  ends := rfl

/-- A copy of one byte is right, and appending nothing to nothing. -/
theorem copies_right_oneByte :
    CopyRight letterAt8 1 8 1 1 (strncpy letterAt8 1 8 1) ∧
      ∃ steps result,
        strncat steps letterAt8 0 8 0 = some result ∧
          CatRight letterAt8 0 0 8 0 1 result := by
  constructor
  · refine ((copies_right_iff letterAt8_string).1 ?_).mpr (.inl le_rfl)
    exact .inl (by decide)
  · refine
      ((copies_right_iff letterAt8_string).2 0 letterAt8_empty ?_).mpr
        ⟨rfl, .inl rfl⟩
    exact .inl (by decide)

/-- A copy of up to three bytes is not ended, and appending moves the pointer. -/
theorem copies_not_right :
    ¬ CopyRight letterAt8 1 8 3 1 (strncpy letterAt8 1 8 3) ∧
      ((strncat 1 letterAt8 0 8 3).map fun result => result.1) = some 1 ∧
        ¬ ∃ steps result,
          strncat steps letterAt8 0 8 3 = some result ∧
            CatRight letterAt8 0 0 8 3 1 result := by
  refine ⟨fun right => ?_, by decide, ?_⟩
  · have null := (right.ended (by decide)).ends
    revert null
    decide
  · intro right
    have apart : Apart 0 (0 + min 3 1 + 1) 8 (1 + 1) := .inl (by decide)
    obtain ⟨_, none | none⟩ :=
      (catRight_iff letterAt8_string letterAt8_empty apart).mp right
    · cases none
    · cases none

end RiscvWorkshop.Klib
