import KernelEventsTrace.Driver.Std.KString
import Mathlib.Algebra.Group.Nat.Defs

/-!
# `KernelEventsTrace.Driver.Std.UnicodeString`: `UNICODE_STRING` and `NTSTATUS`

A `UNICODE_STRING` is given by the code units below its `Length` and by the bytes that its buffer
has room for.
-/

set_option autoImplicit false

namespace KernelEventsTrace.Driver.Std

/-- `NTSTATUS`. -/
abbrev NtStatus := BitVec 32

/-- `NT_SUCCESS`: the status is not negative. -/
def ntSuccess (status : NtStatus) : Bool := !status.msb

def STATUS_SUCCESS : NtStatus := 0#32
def STATUS_BUFFER_OVERFLOW : NtStatus := 0x80000005#32
def STATUS_INVALID_PARAMETER : NtStatus := 0xC000000D#32
def STATUS_INVALID_PARAMETER_1 : NtStatus := 0xC00000EF#32

/-- A wide string literal. -/
def wchars (s : String) : List WChar := s.toList.map fun c => UInt16.ofNat c.toNat

/-- `UNICODE_STRING`. -/
structure UnicodeString where
  /-- The code units of the buffer below `Length`. -/
  chars : List WChar
  /-- `MaximumLength`, in bytes. -/
  maximumLength : Nat
  deriving Repr, DecidableEq

/-- `Length`, in bytes. -/
def UnicodeString.length (s : UnicodeString) : Nat := 2 * s.chars.length

/-- A value of the type `USHORT`. -/
def ushort (n : Nat) : Nat := n % 2 ^ 16

/-- `RtlPrefixUnicodeString`, without regard to case. -/
def rtlPrefixUnicodeString (upcase : WChar → WChar) (s t : List WChar) : Bool :=
  (s.map upcase).isPrefixOf (t.map upcase)

end KernelEventsTrace.Driver.Std
