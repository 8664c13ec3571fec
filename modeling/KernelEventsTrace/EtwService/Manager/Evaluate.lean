import Mathlib.Data.Finset.Card
import Mathlib.Logic.Function.Basic
import KernelEventsTrace.EtwService.WString

/-!
# `KernelEventsTrace.EtwService.Manager.Evaluate`: the first pass over the file events

`EvaluateProcess` of `manager/manager.cpp`, up to the choice of the processes that are looked at.
The first pass counts the files that every process has changed. A path is counted when it occurs
for the first time, because `file_size_map` knows it after that.

`FileSystem` holds the answers about a path. They do not change.
-/

set_option autoImplicit false

namespace KernelEventsTrace.EtwService.Manager

def RENAME_FLAG : UInt64 := 0x4
def WRITE_FLAG : UInt64 := 0x10

def MIN_TOTAL_SIZE_CHECK : UInt64 := 0
def MIN_FILE_COUNT : UInt64 := 10
def MIN_DIR_COUNT : Nat := 2

/-- What the system and the C++ library answer for a path. -/
structure FileSystem where
  fileExist : WString → Bool
  isExecutableFile : WString → Bool
  getFileSize : WString → UInt64
  /-- `fs::path(path).parent_path().wstring()`. -/
  parentPath : WString → WString
  /-- `std::hash<std::wstring>`. -/
  hash : WString → UInt64

/-- The fields of `FileIoInfo` that are read. -/
structure FileIoInfo where
  featuredAccessFlags : UInt64
  filePath : WString
  pid : UInt64
  deriving Repr, DecidableEq

/-- `FileCount`. -/
structure FileCount where
  fileCount : UInt64 := 0
  totalSize : UInt64 := 0
  uniqueDirHashes : Finset UInt64 := ∅
  deriving DecidableEq

/-- The local variables of the first pass. -/
structure FirstPass where
  pidFileCnt : UInt64 → Option FileCount := fun _ => none
  uniquePaths : Finset UInt64 := ∅
  fileSizeMap : UInt64 → Option UInt64 := fun _ => none

/-- The event writes or renames. -/
def changes (io : FileIoInfo) : Bool :=
  io.featuredAccessFlags &&& WRITE_FLAG ≠ 0 ∨ io.featuredAccessFlags &&& RENAME_FLAG ≠ 0

section
variable (fs : FileSystem)

/-- The counts of a process with one more file. -/
def FileCount.add (c : FileCount) (filePath : WString) (fileSize : UInt64) : FileCount where
  totalSize := c.totalSize + fileSize
  fileCount := c.fileCount + 1
  uniqueDirHashes := insert (fs.hash (fs.parentPath filePath)) c.uniqueDirHashes

/-- The loop of the first pass. -/
def firstPassStep (s : FirstPass) (io : FileIoInfo) : FirstPass :=
  let filePath := io.filePath
  let filePathHash := fs.hash filePath
  let pid := io.pid
  let cnt := (s.pidFileCnt pid).getD {}
  let s := { s with pidFileCnt := Function.update s.pidFileCnt pid (some cnt) }
  if fs.fileExist filePath = false ∨ fs.isExecutableFile filePath = true then s
  else
    match s.fileSizeMap filePathHash with
    | some _ => s
    | none =>
      let fileSize := fs.getFileSize filePath
      let s := { s with fileSizeMap := Function.update s.fileSizeMap filePathHash (some fileSize) }
      if fileSize = 0 then s
      else if changes io then
        { s with
          pidFileCnt := Function.update s.pidFileCnt pid (some (cnt.add fs filePath fileSize))
          uniquePaths := insert filePathHash s.uniquePaths }
      else s

/-- The first pass. -/
def firstPass (fileIoList : List FileIoInfo) : FirstPass :=
  fileIoList.foldl (firstPassStep fs) {}

/-- The counts of a process. -/
def counts (fileIoList : List FileIoInfo) (pid : UInt64) : FileCount :=
  ((firstPass fs fileIoList).pidFileCnt pid).getD {}

/-- The counts are high enough. -/
def FileCount.passes (c : FileCount) : Bool :=
  c.fileCount ≥ MIN_FILE_COUNT ∧ c.totalSize ≥ MIN_TOTAL_SIZE_CHECK ∧
    c.uniqueDirHashes.card ≥ MIN_DIR_COUNT

/-- `white_list_pid`: the process has events, but not enough files. -/
def whiteListed (fileIoList : List FileIoInfo) (pid : UInt64) : Bool :=
  match (firstPass fs fileIoList).pidFileCnt pid with
  | some c => !c.passes
  | none => false

end

end KernelEventsTrace.EtwService.Manager
