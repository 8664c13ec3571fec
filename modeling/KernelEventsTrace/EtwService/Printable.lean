import KernelEventsTrace.EtwService.WString

/-!
# `KernelEventsTrace.EtwService.Printable`: what counts as text

`CheckPrintableUTF8`, `CheckPrintableUTF16` and `CheckPrintableANSI` of `ulti/support.cpp`, and
`IsPrintableFile` of `manager/file_manager.cpp`. Each of the first three decodes a buffer in its
own way, and asks the C library about every character.

`wchar_t` has 16 bits. The counters have 64 bits and do not get near their bounds.
-/

set_option autoImplicit false

namespace KernelEventsTrace.EtwService

/-- The character classes of the C library. -/
structure CharTypes where
  isprint : UInt8 → Bool
  isspace : UInt8 → Bool
  iswprint : UInt16 → Bool
  iswspace : UInt16 → Bool

/-- `isprint(c) || isspace(c)`. -/
def CharTypes.byte (types : CharTypes) (c : UInt8) : Bool := types.isprint c || types.isspace c

/-- `iswprint(c) || iswspace(c)`. -/
def CharTypes.wide (types : CharTypes) (c : UInt16) : Bool := types.iswprint c || types.iswspace c

/-- The classes of ASCII. No other character is in them. -/
def CharTypes.asciiOnly : CharTypes where
  isprint c := 32 ≤ c ∧ c ≤ 126
  isspace c := c = 32 ∨ (9 ≤ c ∧ c ≤ 13)
  iswprint c := 32 ≤ c ∧ c ≤ 126
  iswspace c := c = 32 ∨ (9 ≤ c ∧ c ≤ 13)

namespace Ulti

/-- `BelowTextThreshold`. -/
def belowTextThreshold (part total : Nat) : Bool := part ≤ total * 97 / 100

section
variable (types : CharTypes)

/-! ### UTF-16 and ANSI -/

/-- `CheckPrintableUTF16` of a wide string. -/
def checkPrintableUTF16Wide (wstr : WString) : Bool :=
  if wstr.length = 0 then true
  else
    let printableChars := wstr.countP types.wide
    let totalChars := wstr.length
    if totalChars = 0 then false else !belowTextThreshold printableChars totalChars

/-- The wide string in a buffer. The low byte of a character comes first, and an odd byte at the end
is left out. -/
def utf16Units : List UInt8 → WString
  | low :: high :: buffer => (low.toUInt16 ||| high.toUInt16 <<< 8) :: utf16Units buffer
  | _ => []

/-- `CheckPrintableUTF16` of a buffer. -/
def checkPrintableUTF16 (buffer : List UInt8) : Bool :=
  checkPrintableUTF16Wide types (utf16Units buffer)

/-- `CheckPrintableANSI` of a buffer. -/
def checkPrintableANSI (buffer : List UInt8) : Bool :=
  if buffer.length = 0 then true
  else
    let printableChars := buffer.countP types.byte
    let totalChars := buffer.length
    if totalChars = 0 then false else !belowTextThreshold printableChars totalChars

/-! ### UTF-8 -/

/-- The local variables of `CheckPrintableUTF8`. The characters that were tested are recorded. -/
structure Utf8Scan where
  i : Nat := 0
  printableChars : Nat := 0
  totalChars : Nat := 0
  chars : WString := []
  deriving Repr, DecidableEq

/-- A character of `size` bytes was tested. -/
def Utf8Scan.count (s : Utf8Scan) (c : UInt16) (printable : Bool) (size : Nat) : Utf8Scan where
  i := s.i + size
  printableChars := if printable then s.printableChars + 1 else s.printableChars
  totalChars := s.totalChars + 1
  chars := s.chars ++ [c]

/-- A byte, without the bits that tell its place in a character. The sum has the type `int`. -/
def bits (c mask : UInt8) : UInt32 := (c &&& mask).toUInt32

/-- `wchar` of two bytes. -/
def wchar2 (c c1 : UInt8) : UInt16 := (bits c 0x1F <<< 6 ||| bits c1 0x3F).toUInt16

/-- `wchar` of three bytes. -/
def wchar3 (c c1 c2 : UInt8) : UInt16 :=
  (bits c 0x0F <<< 12 ||| bits c1 0x3F <<< 6 ||| bits c2 0x3F).toUInt16

/-- `wchar` of four bytes. The value has up to 21 bits, and `wchar_t` keeps the lower 16 of them. -/
def wchar4 (c c1 c2 c3 : UInt8) : UInt16 :=
  (bits c 0x07 <<< 18 ||| bits c1 0x3F <<< 12 ||| bits c2 0x3F <<< 6 ||| bits c3 0x3F).toUInt16

/-- A round of the loop, at the byte `c`. A character that is cut off at the end is skipped. -/
def utf8Step (buffer : List UInt8) (s : Utf8Scan) (c : UInt8) : Utf8Scan :=
  if c < 0x80 then s.count c.toUInt16 (types.byte c) 1
  else if c &&& 0xE0 = 0xC0 then
    match buffer[s.i + 1]? with
    | some c1 => s.count (wchar2 c c1) (types.wide (wchar2 c c1)) 2
    | none => { s with i := s.i + 2 }
  else if c &&& 0xF0 = 0xE0 then
    match buffer[s.i + 1]?, buffer[s.i + 2]? with
    | some c1, some c2 => s.count (wchar3 c c1 c2) (types.wide (wchar3 c c1 c2)) 3
    | _, _ => { s with i := s.i + 3 }
  else if c &&& 0xF8 = 0xF0 then
    match buffer[s.i + 1]?, buffer[s.i + 2]?, buffer[s.i + 3]? with
    | some c1, some c2, some c3 =>
      s.count (wchar4 c c1 c2 c3) (types.wide (wchar4 c c1 c2 c3)) 4
    | _, _, _ => { s with i := s.i + 4 }
  else { s with i := s.i + 1 }

/-- The loop. A round moves on by at least one byte. -/
def utf8Loop (buffer : List UInt8) : Nat → Utf8Scan → Utf8Scan
  | 0, s => s
  | fuel + 1, s =>
    match buffer[s.i]? with
    | some c => utf8Loop buffer fuel (utf8Step types buffer s c)
    | none => s

/-- The counters after the loop. -/
def utf8Scan (buffer : List UInt8) : Utf8Scan := utf8Loop types buffer buffer.length {}

/-- `CheckPrintableUTF8` of a buffer. -/
def checkPrintableUTF8 (buffer : List UInt8) : Bool :=
  if buffer.length = 0 then true
  else
    let s := utf8Scan types buffer
    if s.totalChars = 0 then false else !belowTextThreshold s.printableChars s.totalChars

end

end Ulti

namespace Manager

/-- The test of `IsPrintableFile` for the buffer that it has read. -/
def isPrintableBuffer (types : CharTypes) (buffer : List UInt8) : Bool :=
  Ulti.checkPrintableUTF8 types buffer || Ulti.checkPrintableUTF16 types buffer ||
    Ulti.checkPrintableANSI types buffer

/-- `IsPrintableFile`, where `content` is `none` for a file that cannot be read. -/
def isPrintableFile (types : CharTypes) (content : WString → Option (List UInt8)) (maxSize : Nat)
    (filePath : WString) : Bool :=
  match content filePath with
  | none => false
  | some bytes => isPrintableBuffer types (bytes.take maxSize)

end Manager

end KernelEventsTrace.EtwService
