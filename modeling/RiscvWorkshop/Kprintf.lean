import Mathlib

namespace RiscvWorkshop.Kprintf

/-!
# Formatted output

A format is read character by character, and what it says is written to a buffer.
Between two characters of the format the function stands in the loop that copies
other text, in the switch behind a percent sign or in the digits of a number.
Characters are bytes without a sign, as on the target.  A signed operation that
overflows has no result.
-/

/-- A character of the source. -/
def chr (c : Char) : BitVec 8 :=
  BitVec.ofNat 8 c.toNat

/-- The characters of a string of the source. -/
def chars (text : String) : List (BitVec 8) :=
  text.toList.map chr

/-- The characters before the NUL of a string. -/
structure CString where
  chars : List (BitVec 8)
  noNul : 0 ∉ chars

/-- `NULLFMT`. -/
def nullfmt : CString :=
  ⟨chars "(fmt null)", by decide⟩

/-- `INT_MIN` and `INT_MAX`. -/
def intMin : Int := -2147483648

def intMax : Int := 2147483647

/-- `KLIB_PRFBUFLEN`. -/
def klibPrfbuflen : Nat := 256

/-- `MIN_RADIX`, `MAX_RADIX` and `DEFAULT_RADIX`. -/
def minRadix : Nat := 2

def maxRadix : Nat := 36

def defaultRadix : Nat := 10

/-- An argument: its 64 bits, and the string when it points to one. -/
structure VaArg where
  bits : BitVec 64
  string : Option CString

/-- `va_arg`.  Behind the last argument zeros are read. -/
def vaArg : List VaArg → VaArg × List VaArg
  | [] => (⟨0, none⟩, [])
  | arg :: ap => (arg, ap)

/-- An argument of type `int`. -/
def VaArg.int (arg : VaArg) : BitVec 32 :=
  arg.bits.setWidth 32

/-- `fmt_cmd_t`. -/
structure FmtCmd where
  dot : Bool
  neg : Bool
  sign : Bool
  ladjust : Bool
  upper : Bool
  cflag : Bool
  hflag : Bool
  lflag : Bool
  qflag : Bool
  sharpflag : Bool
  tflag : Bool
  zflag : Bool

/-- `RESET_FMT`. -/
def resetFmt : FmtCmd :=
  { dot := false, neg := false, sign := false, ladjust := false
    upper := false, cflag := false, hflag := false, lflag := false
    qflag := false, sharpflag := false, tflag := false, zflag := false }

/--
The variables of `kvprintf`; `percent` are the characters from the percent sign
to `fmt`.
-/
structure Vars where
  percent : List (BitVec 8)
  width : Int
  dwidth : Int
  tmp : Int
  bitsiz : Nat
  padchar : BitVec 8
  discardFormat : Bool
  cmd : FmtCmd
  ap : List VaArg

/-- The variables before the first character. -/
def Vars.initial (ap : List VaArg) : Vars :=
  { percent := [], width := 0, dwidth := 0, tmp := 0, bitsiz := 0
    padchar := chr ' ', discardFormat := false, cmd := resetFmt, ap }

/-! ## Digits -/

/-- The loop of `ksprint_binary`, from the lowest bit on. -/
def ksprintBinary
    (num : BitVec 64)
    (numsiz : Nat) : List (BitVec 8) :=
  let varbits :=
    if numsiz ≠ 8 ∧ numsiz ≠ 16 ∧ numsiz ≠ 32 ∧ numsiz ≠ 64 then 32 else numsiz
  (List.range varbits).map fun pos =>
    if num.getLsbD pos then chr '1' else chr '0'

/-- `hex2ascii`, with the large letters of `ktoupper`. -/
def hex2ascii
    (upper : Bool)
    (hex : Nat) : BitVec 8 :=
  let c := (chars "0123456789abcdefghijklmnopqrstuvwxyz").getD hex 0
  if upper ∧ chr 'a' ≤ c ∧ c ≤ chr 'z' then c - 0x20 else c

/-- The loop of `ksprintn`, from the lowest digit on. -/
def ksprintnLoop (base : Nat) : Nat → Nat → List Nat
  | 0, _ => []
  | rounds + 1, num =>
      num % base ::
        if num / base = 0 then [] else ksprintnLoop base rounds (num / base)

/-- `ksprintn`; a number of 64 bits has no more digits. -/
def ksprintn
    (num : BitVec 64)
    (base : Nat)
    (upper : Bool) : List (BitVec 8) :=
  (ksprintnLoop base 64 num.toNat).map (hex2ascii upper)

/-- The rounds are enough: the loop ends behind the last digit. -/
theorem ksprintnLoop_eq
    {base : Nat}
    (isBase : 2 ≤ base) :
    ∀ rounds num,
      num ≠ 0 →
        num < base ^ rounds →
          ksprintnLoop base rounds num = Nat.digits base num := by
  intro rounds
  induction rounds with
  | zero =>
      intro num positive small
      rw [pow_zero] at small
      omega
  | succ rounds inductionHypothesis =>
      intro num positive small
      rw [ksprintnLoop, Nat.digits_def' (by omega) (by omega)]
      refine congrArg _ ?_
      split
      case isTrue isLast =>
        rw [isLast, Nat.digits_zero]
      case isFalse more =>
        refine inductionHypothesis _ more ?_
        rw [pow_succ] at small
        exact Nat.div_lt_of_lt_mul (by rwa [mul_comm])

theorem ksprintn_eq
    {base : Nat}
    (isBase : 2 ≤ base)
    (num : BitVec 64)
    (upper : Bool) :
    ksprintn num base upper =
      (if num = 0 then [0] else Nat.digits base num.toNat).map
        (hex2ascii upper) := by
  rw [ksprintn]
  refine congrArg _ ?_
  split
  case isTrue isZero =>
    subst isZero
    simp [ksprintnLoop]
  case isFalse notZero =>
    refine ksprintnLoop_eq isBase _ _ ?_ ?_
    · exact fun zero => notZero (BitVec.eq_of_toNat_eq zero)
    · exact num.isLt.trans_le (Nat.pow_le_pow_left isBase 64)

/-! ## What a conversion writes -/

/-- A conversion, with what it has read from the arguments. -/
inductive Conversion where
  | char (c : BitVec 8)
  | string (chars : List (BitVec 8)) (width : Int) (padchar : BitVec 8)
      (ladjust : Bool)
  | binary (digits : List (BitVec 8)) (tmp width : Int) (padchar : BitVec 8)
      (ladjust : Bool)
  | number (digits sharp : List (BitVec 8)) (neg : Bool) (width : Int)
      (padchar : BitVec 8) (ladjust : Bool)
  | copied (chars : List (BitVec 8))

/-- The loop over a positive width; it leaves -1. -/
def putPad
    (padchar : BitVec 8)
    (width : Int) : List (BitVec 8) × Int :=
  if width > 0 then (List.replicate width.toNat padchar, -1) else ([], width)

/-- The padding of numbers: a width that is not 0 loses the length first. -/
def padNumber
    (allowed : Bool)
    (padchar : BitVec 8)
    (tmp width : Int) : List (BitVec 8) × Int :=
  if allowed ∧ width ≠ 0 then putPad padchar (width - tmp) else ([], width)

/-- The length of a number with its prefix and its sign. -/
def numberLength
    (digits sharp : List (BitVec 8))
    (neg : Bool) : Nat :=
  digits.length + sharp.length + if neg then 1 else 0

/-- The characters that a conversion puts into the buffer. -/
def Conversion.text : Conversion → List (BitVec 8)
  | .char c => [c]
  | .string chars width padchar ladjust =>
      let width := width - chars.length
      let before := if ladjust then ([], width) else putPad padchar width
      let behind := if ladjust then putPad padchar width else ([], width)
      before.1 ++ chars ++ behind.1
  | .binary digits tmp width padchar ladjust =>
      digits.reverse ++ (padNumber ladjust padchar tmp width).1
  | .number digits sharp neg width padchar ladjust =>
      let tmp : Int := numberLength digits sharp neg
      let spaces := padNumber (!ladjust && padchar != chr '0') padchar tmp width
      let zeros := padNumber (!ladjust) padchar tmp spaces.2
      let behind := padNumber ladjust padchar tmp zeros.2
      spaces.1 ++ (if neg then [chr '-'] else []) ++ sharp ++ zeros.1 ++
        digits.reverse ++ behind.1
  | .copied chars => chars

/-! ## Reading a specification -/

/-- What follows when a character of the format has been read. -/
inductive Action where
  | literal
  | again (v : Vars)
  | digits (n : Int) (v : Vars)
  | convert (conversion : Conversion) (v : Vars)
  | overflow

/-- The argument of an unsigned conversion, and `bitsiz`. -/
def unsignedArg
    (cmd : FmtCmd)
    (arg : VaArg) : BitVec 64 × Nat :=
  if cmd.qflag then
    (arg.bits, 64)
  else if cmd.tflag then
    (arg.bits, 64)
  else if cmd.lflag then
    (arg.bits, 64)
  else if cmd.zflag then
    (arg.bits, 64)
  else if cmd.hflag then
    ((arg.int.setWidth 16).setWidth 64, 32)
  else if cmd.cflag then
    ((arg.int.setWidth 8).setWidth 64, 32)
  else
    (arg.int.setWidth 64, 32)

/-- The argument of a signed conversion. -/
def signedArg
    (cmd : FmtCmd)
    (arg : VaArg) : BitVec 64 :=
  if cmd.qflag then
    arg.bits
  else if cmd.tflag then
    arg.bits
  else if cmd.lflag then
    arg.bits
  else if cmd.zflag then
    arg.bits
  else if cmd.hflag then
    (arg.int.setWidth 16).signExtend 64
  else if cmd.cflag then
    (arg.int.setWidth 8).setWidth 64
  else
    arg.int.signExtend 64

/-- The label `number`. -/
def number
    (base : Nat)
    (num : BitVec 64)
    (v : Vars) : Action :=
  let negative := v.cmd.sign && num.slt 0
  if negative ∧ num = BitVec.intMin 64 then
    .overflow
  else
    let num := if negative then -num else num
    let v := if negative then { v with cmd := { v.cmd with neg := true } } else v
    if base = 2 then
      .convert
        (.binary (ksprintBinary num v.bitsiz) v.tmp v.width v.padchar
          v.cmd.ladjust) v
    else
      let digits := ksprintn num base v.cmd.upper
      let sharp :=
        if v.cmd.sharpflag ∧ num ≠ 0 then
          if base = 8 then chars "0" else if base = 16 then chars "0x" else []
        else
          []
      .convert
        (.number digits sharp v.cmd.neg v.width v.padchar v.cmd.ladjust)
        { v with tmp := numberLength digits sharp v.cmd.neg }

/-- The label `handle_nosign`. -/
def handleNosign
    (base : Nat)
    (v : Vars) : Action :=
  let (arg, ap) := vaArg v.ap
  let cmd := { v.cmd with sign := false }
  let (num, bitsiz) := unsignedArg cmd arg
  number base num { v with cmd, bitsiz, ap }

/-- The label `handle_sign`. -/
def handleSign
    (base : Nat)
    (v : Vars) : Action :=
  let (arg, ap) := vaArg v.ap
  number base (signedArg v.cmd arg) { v with ap }

/-- The width or the precision that is an argument. -/
def star (v : Vars) : Action :=
  let (arg, ap) := vaArg v.ap
  let value := arg.int.toInt
  if ¬ v.cmd.dot then
    if value < 0 then
      if value = intMin then
        .overflow
      else
        let cmd := { v.cmd with ladjust := !v.cmd.ladjust }
        .again { v with cmd, width := -value, ap }
    else
      .again { v with width := value, ap }
  else
    .again { v with dwidth := value, ap }

/-- The conversion of a string. -/
def stringArg (v : Vars) : Action :=
  let (arg, ap) := vaArg v.ap
  let p :=
    match arg.string with
    | none => chars "(null)"
    | some string => string.chars
  let n : Int :=
    if ¬ v.cmd.dot then
      (BitVec.ofNat 32 p.length).toInt
    else
      (p.take v.dwidth.toNat).length
  if n < 0 then
    .overflow
  else
    .convert (.string (p.take n.toNat) v.width v.padchar v.cmd.ladjust)
      { v with ap }

/-- The value of a decimal digit behind the number `n`. -/
def digit
    (n : Int)
    (ch : BitVec 8)
    (v : Vars) : Action :=
  let sum := n * 10 + ch.toNat
  if sum > intMax then .overflow else .digits (sum - (chr '0').toNat) v

/-- The switch. -/
def switch
    (radix : Nat)
    (ch : BitVec 8)
    (v : Vars) : Action :=
  let v := { v with percent := v.percent ++ [ch] }
  match Char.ofNat ch.toNat with
  | '.' => .again { v with cmd := { v.cmd with dot := true } }
  | '#' => .again { v with cmd := { v.cmd with sharpflag := true } }
  | '+' => .again { v with cmd := { v.cmd with sign := true } }
  | '-' => .again { v with cmd := { v.cmd with ladjust := true } }
  | '%' => .convert (.char ch) v
  | '*' => star v
  | '0' =>
      if ¬ v.cmd.dot then .again { v with padchar := chr '0' } else digit 0 ch v
  | '1' => digit 0 ch v
  | '2' => digit 0 ch v
  | '3' => digit 0 ch v
  | '4' => digit 0 ch v
  | '5' => digit 0 ch v
  | '6' => digit 0 ch v
  | '7' => digit 0 ch v
  | '8' => digit 0 ch v
  | '9' => digit 0 ch v
  | 'b' => handleNosign 2 v
  | 'c' =>
      let (arg, ap) := vaArg v.ap
      .convert (.char (arg.int.setWidth 8)) { v with ap }
  | 'd' => handleSign 10 { v with cmd := { v.cmd with sign := true } }
  | 'i' => handleSign 10 { v with cmd := { v.cmd with sign := true } }
  | 'h' =>
      if v.cmd.hflag then
        .again { v with cmd := { v.cmd with hflag := false, cflag := true } }
      else
        .again { v with cmd := { v.cmd with hflag := true } }
  | 'l' =>
      if v.cmd.lflag then
        .again { v with cmd := { v.cmd with lflag := false, qflag := true } }
      else
        .again { v with cmd := { v.cmd with lflag := true } }
  | 'o' => handleNosign 8 v
  | 'p' =>
      let (arg, ap) := vaArg v.ap
      let cmd := { v.cmd with sharpflag := v.width = 0, sign := false }
      number 16 arg.bits { v with cmd, ap }
  | 'q' => .again { v with cmd := { v.cmd with qflag := true } }
  | 'r' => if v.cmd.sign then handleSign radix v else handleNosign radix v
  | 's' => stringArg v
  | 't' => .again { v with cmd := { v.cmd with tflag := true } }
  | 'u' => handleNosign 10 v
  | 'X' => handleNosign 16 { v with cmd := { v.cmd with upper := true } }
  | 'x' => handleNosign 16 v
  | 'y' => handleSign 16 { v with cmd := { v.cmd with sign := true } }
  | 'z' => .again { v with cmd := { v.cmd with zflag := true } }
  | _ => .convert (.copied v.percent) { v with discardFormat := true }

/-- Where the function stands when it reads a character. -/
inductive Place where
  | literal
  | reswitch
  | digits (n : Int)

/--
Reads one character.  The loop over digits looks at the first character behind them
and leaves it to the switch.
-/
def scan
    (radix : Nat)
    (ch : BitVec 8)
    (v : Vars) : Place → Action
  | .literal =>
      if ch ≠ chr '%' ∨ v.discardFormat then
        .literal
      else
        .again
          { v with percent := [ch], width := 0, padchar := chr ' ', cmd := resetFmt }
  | .reswitch => switch radix ch v
  | .digits n =>
      if ch < chr '0' ∨ chr '9' < ch then
        if v.cmd.dot then
          switch radix ch { v with dwidth := n }
        else
          switch radix ch { v with width := n }
      else
        digit n ch { v with percent := v.percent ++ [ch] }

/-! ## The whole function -/

/-- How a call ends; `out` are the characters put so far, from offset 0 on. -/
inductive Outcome where
  | returned (rc : Int) (out : List (BitVec 8))
  | overread (out : List (BitVec 8))
  | overflow

/-- `(int)len - 1`. -/
def lastIndex (len : Nat) : Option Int :=
  let int := (BitVec.ofNat 32 len).toInt
  if int = intMin then none else some (int - 1)

/-- The return from the loop that copies other text. -/
def finish
    (len : Nat)
    (out : List (BitVec 8)) : Outcome :=
  match lastIndex len with
  | none => .overflow
  | some last =>
      .returned (if (out.length : Int) ≥ last then last else out.length) out

/-- `PUTCHAR` for each character; `rc` is an `int`. -/
def put
    (out text : List (BitVec 8)) : Option (List (BitVec 8)) :=
  if ((out ++ text).length : Int) > intMax then none else some (out ++ text)

/-- The loop over the format, with the characters before its NUL. -/
def formatLoop
    (len radix : Nat) :
    List (BitVec 8) → Place → Vars → List (BitVec 8) → Outcome
  | [], place, v, out =>
      match scan radix 0 v place with
      | .literal => finish len out
      | .again _ => .overread out
      | .digits _ _ => .overread out
      | .convert conversion _ =>
          match put out conversion.text with
          | none => .overflow
          | some out => .overread out
      | .overflow => .overflow
  | ch :: fmt, place, v, out =>
      match scan radix ch v place with
      | .literal =>
          match lastIndex len with
          | none => .overflow
          | some last =>
              if (out.length : Int) ≥ last then
                finish len out
              else
                formatLoop len radix fmt .literal v (out ++ [ch])
      | .again v => formatLoop len radix fmt .reswitch v out
      | .digits n v => formatLoop len radix fmt (.digits n) v out
      | .convert conversion v =>
          match put out conversion.text with
          | none => .overflow
          | some out => formatLoop len radix fmt .literal v out
      | .overflow => .overflow

/-- The base of the conversion `r`. -/
def checkedRadix (radix : Int) : Nat :=
  if radix < minRadix ∨ radix > maxRadix then defaultRadix else radix.toNat

/-- `kvprintf`. -/
def kvprintf
    (len : Nat)
    (fmt : Option CString)
    (radix : Int)
    (ap : List VaArg) : Outcome :=
  let fmt := fmt.getD nullfmt
  if len = 0 then
    .returned 0 []
  else
    formatLoop len (checkedRadix radix) fmt.chars .literal (Vars.initial ap) []

/-- What a formatted string is: the result, and what was stored where. -/
structure Formatted where
  rc : Int
  stored : List (BitVec 8)
  terminator : Int

/-- The NUL that is stored behind a call of `kvprintf`. -/
def terminate : Outcome → Option Formatted
  | .returned rc out => some { rc, stored := out, terminator := rc }
  | .overread _ => none
  | .overflow => none

/-- `ksnprintf`. -/
def ksnprintf
    (size : Nat)
    (fmt : Option CString)
    (ap : List VaArg) : Option Formatted :=
  terminate (kvprintf size fmt 10 ap)

/-- `kprintf`, with its buffer `buff`. -/
def kprintf
    (fmt : Option CString)
    (ap : List VaArg) : Option Formatted :=
  terminate (kvprintf klibPrfbuflen fmt 10 ap)

end RiscvWorkshop.Kprintf
