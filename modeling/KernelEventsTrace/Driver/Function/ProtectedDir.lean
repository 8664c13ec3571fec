import KernelEventsTrace.Driver.Function.SelfDefense
import KernelEventsTrace.Driver.Std.UnicodeString
import KernelEventsTrace.Lib.Buffer

/-!
# `KernelEventsTrace.Driver.Function.ProtectedDir`: the default protected directory

`NormalizeDevicePath`, `GetDefaultProtectedDir`, `DrvRegister` and `FltRegister` of
`driver/function/self_defense.cpp`. `LinkCalls` holds the outcome of each system call.

A function that takes an output buffer returns its status and what it leaves in the buffer.
-/

set_option autoImplicit false

namespace KernelEventsTrace.Driver.SelfDefense

open KernelEventsTrace (BufferFault)
open KernelEventsTrace.Driver.Std

/-- The outcomes of the calls that resolve a path. -/
structure LinkCalls where
  /-- `RtlUpcaseUnicodeChar`. -/
  upcase : WChar → WChar
  /-- `ZwOpenSymbolicLinkObject`. -/
  openLink : List WChar → NtStatus
  /-- `ZwQuerySymbolicLinkObject`: the status, and the code units that it leaves in the buffer. -/
  queryLink : List WChar → UnicodeString → NtStatus × List WChar
  /-- `RtlAppendUnicodeStringToString`. -/
  append : UnicodeString → List WChar → NtStatus × List WChar
  /-- If it succeeds, the source was appended. -/
  append_success : ∀ destination source, ntSuccess (append destination source).1 = true →
    (append destination source).2 = destination.chars ++ source

/-- A call that changes the content of a buffer. -/
def afterCall (s : UnicodeString) (outcome : NtStatus × List WChar) :
    NtStatus × UnicodeString :=
  (outcome.1, { s with chars := outcome.2 })

namespace LinkCalls

variable (calls : LinkCalls)

/-- `ResolveSymbolicLink`. -/
def resolveSymbolicLink (link : List WChar) (resolved : UnicodeString) :
    NtStatus × UnicodeString :=
  if !ntSuccess (calls.openLink link) then (calls.openLink link, resolved)
  else afterCall resolved (calls.queryLink link resolved)

/-- The loop that looks for a backslash in `subPath`, with the position and the rounds that are
left. Its bound is a number of bytes, but it counts code units. -/
def separatorLoop (subPath : List WChar) : Nat → Nat → Except BufferFault (Option Nat)
  | 0, _ => .ok none
  | n + 1, i =>
    match subPath[i]? with
    | none => .error .outOfBounds
    | some c => if c = 92 then .ok (some i) else separatorLoop subPath n (i + 1)

/-- The byte length of `subPath` up to the first backslash. -/
def deviceNameLength (subPath : List WChar) : Except BufferFault Nat := do
  match ← separatorLoop subPath (2 * subPath.length) 0 with
  | some i => return ushort (2 * i)
  | none => return 2 * subPath.length

/-- `NormalizeDevicePath` of a path below `\??\`. -/
def normalizeGlobal (path : List WChar) (normalized : UnicodeString) :
    Except BufferFault (NtStatus × UnicodeString) := do
  let length ← deviceNameLength (path.drop 4)
  if length = 0 then
    return (STATUS_INVALID_PARAMETER_1, normalized)
  let subPath := path.take (ushort (length + 8) / 2)
  if !ntSuccess (calls.openLink subPath) then
    return (calls.openLink subPath, normalized)
  let (status, normalized) := afterCall normalized (calls.queryLink subPath normalized)
  if !ntSuccess status then
    return (status, normalized)
  let size := 2 * path.length - 2 * subPath.length + normalized.length
  if size > normalized.maximumLength then
    return (STATUS_BUFFER_OVERFLOW, normalized)
  let (status, normalized) := afterCall normalized
    (calls.append normalized (path.drop subPath.length))
  if !ntSuccess status then
    return (status, normalized)
  return (STATUS_SUCCESS, normalized)

/-- `NormalizeDevicePath` of a path below `\Device\`. -/
def normalizeDevice (path : List WChar) (normalized : UnicodeString) :
    NtStatus × UnicodeString :=
  let (status, normalized) := afterCall normalized
    (calls.append { normalized with chars := [] } path)
  if !ntSuccess status then (status, normalized) else (STATUS_SUCCESS, normalized)

/-- The position of the last backslash. -/
def lastSeparator (path : List WChar) : Option Nat :=
  (List.range path.length).reverse.find? fun i => path[i]? = some 92

/-- `NormalizeDevicePath` of a path below `\SystemRoot\`. -/
def normalizeSystemRoot (path : List WChar) (normalized : UnicodeString) :
    NtStatus × UnicodeString :=
  let (status, resolvedLink) := calls.resolveSymbolicLink (wchars "\\SystemRoot") ⟨[], 2 * 64⟩
  if !ntSuccess status then (status, normalized)
  else
    let (link, winDir) :=
      match lastSeparator resolvedLink.chars with
      | some i => (resolvedLink.chars.take i, resolvedLink.chars.drop i)
      | none => (resolvedLink.chars, [])
    let (status, normalized) := calls.resolveSymbolicLink link normalized
    if !ntSuccess status then (status, normalized)
    else
      let (status, normalized) := afterCall normalized (calls.append normalized winDir)
      if !ntSuccess status then (status, normalized)
      else
        let (status, normalized) := afterCall normalized
          (calls.append normalized (path.drop 11))
        if !ntSuccess status then (status, normalized) else (STATUS_SUCCESS, normalized)

/-- `NormalizeDevicePath`. -/
def normalizeDevicePath (path : List WChar) (normalized : UnicodeString) :
    Except BufferFault (NtStatus × UnicodeString) :=
  if rtlPrefixUnicodeString calls.upcase (wchars "\\??\\") path then
    calls.normalizeGlobal path normalized
  else if rtlPrefixUnicodeString calls.upcase (wchars "\\Device\\") path then
    .ok (calls.normalizeDevice path normalized)
  else if rtlPrefixUnicodeString calls.upcase (wchars "\\SystemRoot\\") path then
    .ok (calls.normalizeSystemRoot path normalized)
  else .ok (STATUS_INVALID_PARAMETER, normalized)

end LinkCalls

/-- The path of the default protected directory. -/
def protectedDir : List WChar := wchars "\\??\\E:\\"

/-- The buffer for its device path. -/
def protectedDirBuffer : UnicodeString := ⟨[], 2 * 1024⟩

/-- `GetDefaultProtectedDir`. The status is not looked at. -/
def getDefaultProtectedDir (calls : LinkCalls) : Except BufferFault (KString WChar) := do
  let (_, devicePath) ← calls.normalizeDevicePath protectedDir protectedDirBuffer
  return .of devicePath.chars

/-- `DrvRegister`. `PushBack` assigns the directory to a default-constructed string. -/
def drvRegister (calls : LinkCalls) : Except BufferFault Globals := do
  let dir ← getDefaultProtectedDir calls
  return { processMap := fun _ => none, protectedDirList := [dir.assigned],
           enableProtectFile := false }

/-- `FltRegister`. -/
def fltRegister (g : Globals) : Globals := { g with enableProtectFile := true }

end KernelEventsTrace.Driver.SelfDefense
