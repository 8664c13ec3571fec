import KernelEventsTrace.EtwService.Manager.Evaluate
import KernelEventsTrace.EtwService.Manager.Win32Path
import KernelEventsTrace.EtwService.Printable

/-!
# `KernelEventsTrace.EtwService.Manager.SecondPass`: the files that are scanned

The second pass of `EvaluateProcess` in `manager/manager.cpp`, in the release build. It goes
through the events again and takes the files of the processes with enough changes, up to a total
size for each process. A file whose path TrID would not understand is copied first.

`ScanTools` holds what the pass calls. No path is copied twice, so the copy of a file does not
depend on anything that was copied before.
-/

set_option autoImplicit false

namespace KernelEventsTrace.EtwService.Manager

/-- `FILE_MAX_TOTAL_SIZE_SCAN`. -/
def FILE_MAX_TOTAL_SIZE_SCAN : UInt64 := (10 * 1024 * 1024) * 5

/-- `FileInfo`. -/
structure FileInfo where
  currentPath : WString
  tmpPath : WString
  pid : UInt64
  deriving Repr, DecidableEq

/-- What the second pass calls. -/
structure ScanTools where
  types : CharTypes
  /-- `ulti::WstrToStr`, or `none` if it throws `std::range_error`. -/
  wstrToStr : WString → Option (List UInt8)
  /-- `CopyToTmp`. The path is empty if the file could not be copied. -/
  copyToTmp : WString → UInt64 → WString

/-- The local variables of the second pass. -/
structure SecondPass where
  pidFileCnt : UInt64 → Option FileCount
  uniquePaths : Finset UInt64
  fileSizeMap : UInt64 → Option UInt64
  fileList : List FileInfo := []
  paths : List WString := []

/-- The counters are used again, for what is scanned. -/
def FileCount.reset (c : FileCount) : FileCount := { c with fileCount := 0, totalSize := 0 }

/-- The variables after the choice of the processes. -/
def FirstPass.gate (s : FirstPass) : SecondPass where
  pidFileCnt pid := (s.pidFileCnt pid).map FileCount.reset
  uniquePaths := s.uniquePaths
  fileSizeMap := s.fileSizeMap

section
variable (fs : FileSystem) (tools : ScanTools)

/-- `ulti::CheckPrintableANSI(file_path)`. -/
def checkPrintablePath (filePath : WString) : Option Bool :=
  (tools.wstrToStr filePath).map (Ulti.checkPrintableANSI tools.types)

/-- `tmp_path`: the path itself, or that of a copy. -/
def tmpPath (filePath : WString) (fileSize : UInt64) : Option WString :=
  (checkPrintablePath tools filePath).map fun printable =>
    if printable = false ∨ filePath.length ≥ MAX_PATH then tools.copyToTmp filePath fileSize
    else filePath

/-- A file is put into the lists, if it has a path to scan. -/
def SecondPass.push (s : SecondPass) (filePath tmpPath : WString) (pid : UInt64) : SecondPass :=
  if tmpPath = [] then s
  else
    let cnt := (s.pidFileCnt pid).getD {}
    { s with
      pidFileCnt := Function.update s.pidFileCnt pid
        (some { cnt with fileCount := cnt.fileCount + 1 })
      fileList := s.fileList ++ [⟨filePath, tmpPath, pid⟩]
      paths := s.paths ++ [tmpPath] }

/-- A round of the loop, or `none` for an exception. The operator `[]` of the maps inserts an entry
if there is none. -/
def secondPassStep (whiteListPid : UInt64 → Bool) (s : SecondPass) (io : FileIoInfo) :
    Option SecondPass :=
  let filePathHash := fs.hash io.filePath
  if filePathHash ∉ s.uniquePaths then some s
  else if whiteListPid io.pid = true then some s
  else
    let fileSize := (s.fileSizeMap filePathHash).getD 0
    let cnt := (s.pidFileCnt io.pid).getD {}
    let s := { s with
      fileSizeMap := Function.update s.fileSizeMap filePathHash (some fileSize)
      pidFileCnt := Function.update s.pidFileCnt io.pid (some cnt) }
    if cnt.totalSize + fileSize > FILE_MAX_TOTAL_SIZE_SCAN then some s
    else
      let s := { s with
        pidFileCnt := Function.update s.pidFileCnt io.pid
          (some { cnt with totalSize := cnt.totalSize + fileSize })
        uniquePaths := s.uniquePaths.erase filePathHash }
      if fileSize = 0 then some s
      else (tmpPath tools io.filePath fileSize).map fun tmp => s.push io.filePath tmp io.pid

/-- The second pass. -/
def secondPass (fileIoList : List FileIoInfo) : Option SecondPass :=
  fileIoList.foldlM (secondPassStep fs tools (whiteListed fs fileIoList))
    (firstPass fs fileIoList).gate

end

end KernelEventsTrace.EtwService.Manager
