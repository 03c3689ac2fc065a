import Mathlib

namespace RiscvWorkshop

/-!
# Definitions shared by the kernel components

Error numbers and page arithmetic in the words of the kernel headers.
-/

/-- The error numbers that the modelled functions return, without their sign. -/
inductive Errno where
  | eagain
  | ebusy
  | eintr
  | einval
  | eio
  | enodev
  | enoent
  | enolck
  | enomem
  | enospc
  | esrch
deriving Repr, DecidableEq

/-- `wque_reason`: what ended a wait. -/
inductive WqueReason where
  | wait
  | released
  | destroyed
  | timeout
  | delivev
deriving Repr, DecidableEq

/-- `PAGE_SHIFT`: the logarithm of the size of a normal page. -/
def pageShift : Nat := 12

/-- `PAGE_SIZE`: the bytes of a normal page. -/
def pageSize : Nat := 1 <<< pageShift

/-- `truncate_align`: the last multiple of `size` up to an address. -/
def truncateAlign (address size : Nat) : Nat :=
  address / size * size

/-- `roundup_align`: the first multiple of `size` from an address on. -/
def roundupAlign (address size : Nat) : Nat :=
  truncateAlign (address + (size - 1)) size

end RiscvWorkshop
