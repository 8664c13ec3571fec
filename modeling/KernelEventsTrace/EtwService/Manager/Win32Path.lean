import Mathlib.Algebra.Group.Nat.Defs
import Mathlib.Logic.Function.Basic
import KernelEventsTrace.EtwService.Ulti

/-!
# `KernelEventsTrace.EtwService.Manager.Win32Path`: from native paths to Win32 paths

`GetWin32PathCaseSensitive` and `GetWin32Path` of `manager/file_manager.cpp`, with the map
`kWin32Path`. The map has one drive for each device. It is learned from the first file of the
device that the system can open, and used for all files of the device after that.

`NtFiles` holds the answers of the system about a native path. They do not change.
-/

set_option autoImplicit false

namespace KernelEventsTrace.EtwService

namespace Manager

/-- What the system answers for a native path. -/
structure NtFiles where
  /-- `NtCreateFile` and `GetFinalPathNameByHandleW`: the name that the file has in the end, or
  `none` if it cannot be opened. The name is empty if it cannot be found out. -/
  finalPathName : WString → Option WString

/-- The content of `kWin32Path`. -/
abbrev Win32PathMap := WString → Option WString

/-- `L'\\'`. -/
def backslash : UInt16 := 92

/-- The length of a path buffer. -/
def MAX_PATH : Nat := 260

/-- The string starts with `\\?\` or `\\.\`. -/
def hasNamespacePrefix (path : WString) : Bool :=
  path.find (wide "\\\\?\\") = some 0 ∨ path.find (wide "\\\\.\\") = some 0

/-- `device_name`: up to the first backslash behind `\Device\`. -/
def deviceName (path : WString) : WString :=
  path.upTo (path.findChar backslash (wide "\\Device\\").length)

/-- `unicode_path`. The number of bytes has the type `USHORT`. -/
def unicodePath (path : WString) : WString := path.take (path.length * 2 % 2 ^ 16 / 2)

/-- `win_api_path`: the name that the system gives, if it fits into the buffer. -/
def winApiPath (files : NtFiles) (path : WString) : Option WString :=
  match files.finalPathName (unicodePath path) with
  | none => none
  | some buffer =>
    if buffer.length ≠ 0 ∧ buffer.length < MAX_PATH then
      let name := buffer.takeWhile fun c => c ≠ 0
      some (if hasNamespacePrefix name then name.drop 4 else name)
    else none

/-- `drive_prefix`. -/
def drivePrefix (winApiPath : WString) : WString :=
  winApiPath.upTo (winApiPath.findChar backslash 0)

/-- `GetWin32PathCaseSensitive`. -/
def getWin32PathCaseSensitive (files : NtFiles) (kWin32Path : Win32PathMap) (path : WString) :
    WString × Win32PathMap :=
  if path = [] ∨ path.head? ≠ some backslash then (path, kWin32Path)
  else if hasNamespacePrefix path then (path.drop 4, kWin32Path)
  else
    match kWin32Path (deviceName path) with
    | some drive => (drive ++ path.drop (deviceName path).length, kWin32Path)
    | none =>
      match winApiPath files path with
      | none => ([], kWin32Path)
      | some name =>
        (name, Function.update kWin32Path (deviceName path) (some (drivePrefix name)))

/-- `GetWin32Path`. -/
def getWin32Path (files : NtFiles) (locale : Locale) (kWin32Path : Win32PathMap)
    (path : WString) : WString × Win32PathMap :=
  let r := getWin32PathCaseSensitive files kWin32Path path
  (Ulti.toLower locale r.1, r.2)

/-- A call of one of the two functions. -/
inductive PathCall where
  | caseSensitive (path : WString)
  | lower (path : WString)
  deriving Repr, DecidableEq

/-- The map after a call. -/
def stepPath (files : NtFiles) (locale : Locale) (kWin32Path : Win32PathMap) :
    PathCall → Win32PathMap
  | .caseSensitive path => (getWin32PathCaseSensitive files kWin32Path path).2
  | .lower path => (getWin32Path files locale kWin32Path path).2

/-- The map after a sequence of calls. It is empty at first. -/
def runPaths (files : NtFiles) (locale : Locale) (calls : List PathCall) : Win32PathMap :=
  calls.foldl (stepPath files locale) fun _ => none

end Manager

end KernelEventsTrace.EtwService
