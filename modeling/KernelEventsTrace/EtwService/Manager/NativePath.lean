import KernelEventsTrace.EtwService.Manager.Win32Path

/-!
# `KernelEventsTrace.EtwService.Manager.NativePath`: from Win32 paths to native paths

`GetNativePath` of `manager/file_manager.cpp`, with the map `kNativePath`. The map has one device
for each drive. It is learned from `QueryDosDeviceW` at the first path of the drive.

`DosDevices` holds the answers of `QueryDosDeviceW`. They do not change.
-/

set_option autoImplicit false

namespace KernelEventsTrace.EtwService

namespace Manager

/-- The names that `QueryDosDeviceW` knows. -/
structure DosDevices where
  /-- What is written for a name, or `none` if there is an error other than a small buffer. -/
  target : WString → Option WString
  target_ne : ∀ name, target name ≠ some []

/-- The results of one call of `QueryDosDeviceW`. -/
inductive QueryResult where
  | failed
  | insufficientBuffer
  | written (chars : WString)
  deriving Repr, DecidableEq

/-- `QueryDosDeviceW` with a buffer of `size` characters. -/
def DosDevices.query (devices : DosDevices) (name : WString) (size : Nat) : QueryResult :=
  match devices.target name with
  | none => .failed
  | some chars => if chars.length ≤ size then .written chars else .insufficientBuffer

/-- The loop of `GetNativePath`. The buffer is doubled as long as it is too small. -/
def queryLoop (devices : DosDevices) (name : WString) : Nat → Nat → Option WString
  | 0, _ => none
  | fuel + 1, size =>
    match devices.query name size with
    | .failed => none
    | .insufficientBuffer => queryLoop devices name fuel (size * 2)
    | .written chars => some chars

/-- The buffer after the loop. It is doubled less often than it has characters. -/
def deviceBuffer (devices : DosDevices) (name : WString) : Option WString :=
  queryLoop devices name (((devices.target name).getD []).length + 1) MAX_PATH

/-- The characters before the first `\0`. -/
def cString (s : WString) : WString := s.takeWhile fun c => c ≠ 0

/-- `drive_name`: up to the first backslash. -/
def driveName (path : WString) : WString := path.upTo (path.findChar backslash 0)

/-- The content of `kNativePath`. -/
abbrev NativePathMap := WString → Option WString

/-- `GetNativePath`. The answer is `none` if `substr` throws `std::out_of_range`. -/
def getNativePath (devices : DosDevices) (kNativePath : NativePathMap) (path : WString) :
    Option WString × NativePathMap :=
  let drive := driveName path
  match kNativePath drive with
  | some device => (some (device ++ path.drop drive.length), kNativePath)
  | none =>
    match deviceBuffer devices (cString drive) with
    | none => (some [], kNativePath)
    | some buffer =>
      let device := cString buffer
      -- The map is written first. Without a backslash, `find_first_of` gives `npos` here.
      ((path.findChar backslash 0).map fun pos => device ++ path.drop pos,
        Function.update kNativePath drive (some device))

/-- The map after a sequence of calls. It is empty at first, and a call that throws keeps what it
has inserted. -/
def runNativePaths (devices : DosDevices) (paths : List WString) : NativePathMap :=
  paths.foldl (fun kNativePath path => (getNativePath devices kNativePath path).2) fun _ => none

end Manager

end KernelEventsTrace.EtwService
