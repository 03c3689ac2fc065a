import Mathlib
import RiscvWorkshop.BitmapWords

namespace RiscvWorkshop.Bitops

open Set

/-!
# Bitmaps of any words

A bitmap stands for the set of its bits.  The searches count the words with
32-bit integers, and the one for the last bit takes a signed index; the other
loops count with `size_t`.
-/

/-- `_b`, the words of a bitmap. -/
abbrev BitmapOf (type : WordType) := List (BitVec type.bits)

section Operations

variable {type : WordType}

/-- `__BITMAP_INDEX_SHIFT`. -/
def bitmapIndexShift (type : WordType) : Nat :=
  WordType.uint64.fls (BitVec.ofNat 64 type.bits) - 1

/-- `__BITMAP_INDEX`. -/
def wordIndex
    (type : WordType)
    (n : Nat) : Nat :=
  n >>> bitmapIndexShift type

/-- `__BITMAP_OFFSET`. -/
def wordOffset
    (type : WordType)
    (n : Nat) : BitVec type.bits :=
  BitVec.ofNat type.bits 1 <<< (n &&& (type.bits - 1))

namespace BitmapOf

/-- `bitops_set`. -/
def set
    (n : Nat)
    (map : BitmapOf type) : BitmapOf type :=
  map.modify (wordIndex type n) (· ||| wordOffset type n)

/-- `bitops_clr`. -/
def clr
    (n : Nat)
    (map : BitmapOf type) : BitmapOf type :=
  map.modify (wordIndex type n) (· &&& ~~~wordOffset type n)

/-- `bitops_isset`, which is true of every value but 0. -/
def isset
    (n : Nat)
    (map : BitmapOf type) : Bool :=
  map.getD (wordIndex type n) 0 &&& wordOffset type n != 0

/-- `bitops_zero`. -/
def zero (map : BitmapOf type) : BitmapOf type :=
  map.map fun _ => 0

/-- `bitops_fill`. -/
def fill (map : BitmapOf type) : BitmapOf type :=
  map.map fun _ => ~~~0

/-- `bitops_inv`, over the words that both bitmaps have. -/
def inv : BitmapOf type → BitmapOf type → BitmapOf type
  | word :: v, _ :: out => ~~~word :: inv v out
  | _, out => out

/-- The loop of `bitops_and`, `bitops_or` and `bitops_xor`. -/
def combine
    (op : BitVec type.bits → BitVec type.bits → BitVec type.bits) :
    BitmapOf type → BitmapOf type → BitmapOf type → BitmapOf type
  | word1 :: v1, word2 :: v2, _ :: out => op word1 word2 :: combine op v1 v2 out
  | _, _, out => out

/-- `bitops_and`. -/
def and (v1 v2 out : BitmapOf type) : BitmapOf type :=
  combine (· &&& ·) v1 v2 out

/-- `bitops_or`. -/
def or (v1 v2 out : BitmapOf type) : BitmapOf type :=
  combine (· ||| ·) v1 v2 out

/-- `bitops_xor`. -/
def xor (v1 v2 out : BitmapOf type) : BitmapOf type :=
  combine (· ^^^ ·) v1 v2 out

/--
The loop of `__bitops_ffs` and `__bitops_ffc` from the word `i`, an
`unsigned int`, with a bound on its turns.
-/
def searchFirst
    (find : BitVec type.bits → Nat)
    (map : BitmapOf type) : Nat → Nat → Option Nat
  | 0, _ => none
  | turns + 1, i =>
      if i < map.length then
        let off := find (map.getD i 0)
        if off ≠ 0 then
          some (type.bits * i + off)
        else
          searchFirst find map turns ((i + 1) % 2 ^ 32)
      else
        some 0

/--
The loop of `__bitops_fls` and `__bitops_flc`.  Its index is an `int`, and a
negative one is in front of the bitmap.
-/
def searchLast
    (find : BitVec type.bits → Nat)
    (map : BitmapOf type) : Nat → Nat → Option Nat
  | 0, _ => none
  | turns + 1, i =>
      if i < map.length then
        let idx := (BitVec.ofNat 32 (map.length - i - 1)).toInt
        if idx < 0 then
          none
        else
          let off := find (map.getD idx.toNat 0)
          if off ≠ 0 then
            some (type.bits * idx.toNat + off)
          else
            searchLast find map turns ((i + 1) % 2 ^ 32)
      else
        some 0

/-- `bitops_ffs`. -/
def ffs
    (turns : Nat)
    (map : BitmapOf type) : Option Nat :=
  searchFirst type.ffs map turns 0

/-- `bitops_fls`. -/
def fls
    (turns : Nat)
    (map : BitmapOf type) : Option Nat :=
  searchLast type.fls map turns 0

/-- `bitops_ffc`. -/
def ffc
    (turns : Nat)
    (map : BitmapOf type) : Option Nat :=
  searchFirst (fun word => type.ffs (~~~word)) map turns 0

/-- `bitops_flc`. -/
def flc
    (turns : Nat)
    (map : BitmapOf type) : Option Nat :=
  searchLast (fun word => type.fls (~~~word)) map turns 0

/-- A bit of a bitmap. -/
def bit
    (map : BitmapOf type)
    (n : Nat) : Bool :=
  (map.getD (n / type.bits) 0).getLsbD (n % type.bits)

/-- The number of the bits of a bitmap. -/
def size (map : BitmapOf type) : Nat :=
  type.bits * map.length

/-- The set that a bitmap stands for. -/
def members (map : BitmapOf type) : Set Nat :=
  {n | map.bit n = true}

/-- The bits of a bitmap that are not in its set. -/
def nonmembers (map : BitmapOf type) : Set Nat :=
  {n | n < map.size ∧ n ∉ map.members}

end BitmapOf

end Operations

/-- One more than the least element, or 0 for none. -/
def FirstPlace
    (set : Set Nat)
    (pos : Nat) : Prop :=
  set = ∅ ∧ pos = 0 ∨ ∃ n, IsLeast set n ∧ pos = n + 1

/-- One more than the greatest element, or 0 for none. -/
def LastPlace
    (set : Set Nat)
    (pos : Nat) : Prop :=
  set = ∅ ∧ pos = 0 ∨ ∃ n, IsGreatest set n ∧ pos = n + 1

/-! ## Operations on several bitmaps -/

/-- An operation on bitmaps with names. -/
inductive BitmapOp (Name : Type*) where
  | set (n : Nat) (v : Name)
  | clr (n : Nat) (v : Name)
  | zero (v : Name)
  | fill (v : Name)
  | inv (v out : Name)
  | and (v1 v2 out : Name)
  | or (v1 v2 out : Name)
  | xor (v1 v2 out : Name)

section Runs

variable {Name : Type*}
variable [DecidableEq Name]
variable {type : WordType}

/-- What an operation makes of the bitmaps. -/
def BitmapOp.run
    (maps : Name → BitmapOf type) : BitmapOp Name → Name → BitmapOf type
  | .set n v => Function.update maps v ((maps v).set n)
  | .clr n v => Function.update maps v ((maps v).clr n)
  | .zero v => Function.update maps v (maps v).zero
  | .fill v => Function.update maps v (maps v).fill
  | .inv v out => Function.update maps out ((maps v).inv (maps out))
  | .and v1 v2 out =>
      Function.update maps out ((maps v1).and (maps v2) (maps out))
  | .or v1 v2 out =>
      Function.update maps out ((maps v1).or (maps v2) (maps out))
  | .xor v1 v2 out =>
      Function.update maps out ((maps v1).xor (maps v2) (maps out))

/-- Operations one after the other. -/
def runBitmapOps :
    List (BitmapOp Name) → (Name → BitmapOf type) → Name → BitmapOf type
  | [], maps => maps
  | op :: later, maps => runBitmapOps later (op.run maps)

/-- What an operation makes of sets of numbers below the sizes of the bitmaps. -/
def BitmapOp.onSets
    (size : Name → Nat)
    (sets : Name → Set Nat) : BitmapOp Name → Name → Set Nat
  | .set n v => Function.update sets v (insert n (sets v))
  | .clr n v => Function.update sets v (sets v \ {n})
  | .zero v => Function.update sets v ∅
  | .fill v => Function.update sets v (Iio (size v))
  | .inv v out =>
      Function.update sets out
        ((Iio (min (size v) (size out))).ite (sets v)ᶜ (sets out))
  | .and v1 v2 out =>
      Function.update sets out
        ((Iio (min (min (size v1) (size v2)) (size out))).ite
          (sets v1 ∩ sets v2) (sets out))
  | .or v1 v2 out =>
      Function.update sets out
        ((Iio (min (min (size v1) (size v2)) (size out))).ite
          (sets v1 ∪ sets v2) (sets out))
  | .xor v1 v2 out =>
      Function.update sets out
        ((Iio (min (min (size v1) (size v2)) (size out))).ite
          (symmDiff (sets v1) (sets v2)) (sets out))

/-- Operations on the sets one after the other. -/
def bitmapOpsOnSets
    (size : Name → Nat) :
    List (BitmapOp Name) → (Name → Set Nat) → Name → Set Nat
  | [], sets => sets
  | op :: later, sets => bitmapOpsOnSets size later (op.onSets size sets)

/-- The bits that are set and cleared are bits of the bitmap. -/
def BitmapOp.InRange
    (size : Name → Nat) : BitmapOp Name → Prop
  | .set n v => n < size v
  | .clr n v => n < size v
  | _ => True

end Runs

end RiscvWorkshop.Bitops
