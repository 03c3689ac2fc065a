import Mathlib
import RiscvWorkshop.Memset
import RiscvWorkshop.VmCopy

namespace RiscvWorkshop.Klib

/-!
# Moving memory

`memmove` copies from the last byte down when the destination begins within the
source, and from the first byte up otherwise, so that a byte of the source is
read before it is overwritten.
-/

/-- The loop of `memmove` that goes down. -/
def moveDown : Nat → Bytes → Nat → Nat → Bytes
  | 0, mem, _, _ => mem
  | len + 1, mem, d, s =>
      moveDown len (Function.update mem (d - 1) (mem (s - 1))) (d - 1) (s - 1)

/-- The loop of `memmove` that goes up. -/
def moveUp : Nat → Bytes → Nat → Nat → Bytes
  | 0, mem, _, _ => mem
  | len + 1, mem, d, s =>
      moveUp len (Function.update mem d (mem s)) (d + 1) (s + 1)

/-- `memmove`, with what it returns and the memory after it. -/
def memmove
    (mem : Bytes)
    (dest src count : Nat) : Nat × Bytes :=
  if dest = src then
    (dest, mem)
  else if src < dest ∧ dest < src + count then
    (dest, moveDown count mem (dest + count) (src + count))
  else
    (dest, moveUp count mem dest src)

/-- The bytes of one range are those of the other before, and no other changed. -/
structure Moved
    (mem after : Bytes)
    (dest src count : Nat) : Prop where
  copied : ∀ i < count, after (dest + i) = mem (src + i)
  kept : ∀ a, a < dest ∨ dest + count ≤ a → after a = mem a

section Loops

variable {mem after : Bytes}
variable {dest src count : Nat}

/-- The first byte is copied, and then the others. -/
theorem Moved.first
    (apart : ∀ i < count, src + 1 + i ≠ dest)
    (moved :
      Moved (Function.update mem dest (mem src)) after (dest + 1) (src + 1)
        count) :
    Moved mem after dest src (count + 1) where
  copied := by
    intro i less
    cases i with
    | zero =>
        rw [Nat.add_zero, moved.kept dest (.inl (Nat.lt_succ_self dest))]
        exact Function.update_self ..
    | succ i =>
        have later : i < count := Nat.lt_of_succ_lt_succ less
        have copy := moved.copied i later
        rw [Function.update_of_ne (apart i later)] at copy
        rw [Nat.add_comm i 1, ← Nat.add_assoc, ← Nat.add_assoc]
        exact copy
  kept := by
    intro a outside
    rw [moved.kept a (by omega)]
    exact Function.update_of_ne (by omega) ..

/-- The last byte is copied, and then the others. -/
theorem Moved.last
    (apart : ∀ i < count, src + i ≠ dest + count)
    (moved :
      Moved (Function.update mem (dest + count) (mem (src + count))) after dest
        src count) :
    Moved mem after dest src (count + 1) where
  copied := by
    intro i less
    rcases Nat.lt_succ_iff_lt_or_eq.mp less with before | rfl
    · rw [moved.copied i before]
      exact Function.update_of_ne (apart i before) ..
    · rw [moved.kept _ (.inr le_rfl)]
      exact Function.update_self ..
  kept := by
    intro a outside
    rw [moved.kept a (by omega)]
    exact Function.update_of_ne (by omega) ..

theorem Moved.none
    (mem : Bytes)
    (dest src : Nat) :
    Moved mem mem dest src 0 where
  copied := nofun
  kept := fun _ _ => rfl

/-- Going up is right when the destination does not begin within the source. -/
theorem moveUp_moved
    (count : Nat)
    (outside : dest < src ∨ src + count ≤ dest) :
    Moved mem (moveUp count mem dest src) dest src count := by
  induction count generalizing mem dest src with
  | zero =>
      exact Moved.none mem dest src
  | succ count inductionHypothesis =>
      refine Moved.first (fun i before => by omega) ?_
      exact inductionHypothesis (by omega)

/-- Going down is right when the source begins before the destination. -/
theorem moveDown_moved
    (count : Nat)
    (before : src < dest) :
    Moved mem (moveDown count mem (dest + count) (src + count)) dest src
      count := by
  induction count generalizing mem with
  | zero =>
      exact Moved.none mem dest src
  | succ count inductionHypothesis =>
      exact Moved.last (fun i less => by omega) inductionHypothesis

/-- Whatever the direction, the range is moved. -/
theorem memmove_moved
    (mem : Bytes)
    (dest src count : Nat) :
    Moved mem (memmove mem dest src count).2 dest src count := by
  rw [memmove]
  split
  case isTrue same =>
    subst same
    exact { copied := fun _ _ => rfl, kept := fun _ _ => rfl }
  case isFalse different =>
    split
    case isTrue within => exact moveDown_moved count within.1
    case isFalse outside => exact moveUp_moved count (by omega)

/--
`memmove` leaves at the destination what was at the source, however the two
overlap, changes no other byte, and returns the destination.
-/
theorem memmove_right
    (mem : Bytes)
    (dest src count : Nat) :
    (memmove mem dest src count).1 = dest ∧
      Moved mem (memmove mem dest src count).2 dest src count := by
  refine ⟨?_, memmove_moved mem dest src count⟩
  rw [memmove]
  split
  · rfl
  · split <;> rfl

example :
    (List.range 6).map (memmove (BitVec.ofNat 8) 2 1 3).2 =
      [0, 1, 1, 2, 3, 5] := by decide

/-- The copies between page tables are those of the loops. -/
theorem memmove_eq_vmMemmove
    (mem : Bytes)
    (dest src count : Nat) :
    (memmove mem dest src count).2 = Vm.memmove mem dest src count := by
  have moved := memmove_moved mem dest src count
  funext a
  rw [Vm.memmove]
  split
  case isTrue inside =>
    obtain ⟨i, rfl⟩ := Nat.exists_eq_add_of_le inside.1
    rw [Nat.add_sub_cancel_left]
    exact moved.copied i (by omega)
  case isFalse outside =>
    exact moved.kept a (by omega)

end Loops

end RiscvWorkshop.Klib
