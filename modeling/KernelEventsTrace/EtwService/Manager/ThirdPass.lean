import KernelEventsTrace.EtwService.Manager.SecondPass
import KernelEventsTrace.EtwService.Manager.Trid

/-!
# `KernelEventsTrace.EtwService.Manager.ThirdPass`: how many files of a process are recognized

The third pass of `EvaluateProcess` in `manager/manager.cpp`, over the files that were selected. It
counts the files of every process, and those of them that are recognized, by their verdicts in
`trid_map`. TrID does not report text files, so the pass looks for their extension.

The file system does not change during the pass. The counters have 64 bits, and there are fewer
files.
-/

set_option autoImplicit false

namespace KernelEventsTrace.EtwService.Manager

/-- The local variables of the third pass: `trid_map` and `proc_check_results`. -/
structure ThirdPass where
  tridMap : TridMap
  procCheckResults : UInt64 → Option (Nat × Nat) := fun _ => none

section
variable (fs : FileSystem) (locale : Locale) (isPrintableFile : WString → Bool)

/-- The file has the extension of a text file. -/
def isTxt (filePath : WString) : Bool := getFileExtension locale filePath = wide "txt"

/-- The test of a file without a verdict, or `none` for `continue`. -/
def checkManually (filePath : WString) : Option Bool :=
  if fs.fileExist filePath = true ∧ isTxt locale filePath = true then
    some (isPrintableFile filePath)
  else none

/-- A round of the loop. -/
def thirdPassStep (s : ThirdPass) (info : FileInfo) : ThirdPass :=
  if fs.fileExist info.currentPath = false then s
  else
    let filePath := info.currentPath
    let tmpPathHash := fs.hash info.tmpPath
    let isRecognized : Option Bool :=
      match s.tridMap tmpPathHash with
      | some _ => some false
      | none => checkManually fs locale isPrintableFile filePath
    match isRecognized with
    | none => s
    | some _ =>
      -- What was found out is overwritten. The operator `[]` inserts `false` for a new key.
      let isRecognized := (s.tridMap tmpPathHash).getD false
      let stats := (s.procCheckResults info.pid).getD (0, 0)
      { tridMap := Function.update s.tridMap tmpPathHash (some isRecognized)
        procCheckResults := Function.update s.procCheckResults info.pid
          (some (stats.1 + isRecognized.toNat, stats.2 + 1)) }

/-- The third pass. -/
def thirdPass (tridMap : TridMap) (fileList : List FileInfo) : ThirdPass :=
  fileList.foldl (thirdPassStep fs locale isPrintableFile) { tridMap := tridMap }

/-- `(recognized, total)` of a process. -/
def tally (tridMap : TridMap) (fileList : List FileInfo) (pid : UInt64) : Nat × Nat :=
  ((thirdPass fs locale isPrintableFile tridMap fileList).procCheckResults pid).getD (0, 0)

end

end KernelEventsTrace.EtwService.Manager
