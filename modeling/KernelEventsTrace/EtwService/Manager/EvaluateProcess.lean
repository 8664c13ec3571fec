import KernelEventsTrace.EtwService.Manager.ProcessManager
import KernelEventsTrace.EtwService.Manager.ThirdPass

/-!
# `KernelEventsTrace.EtwService.Manager.EvaluateProcess`: from the queue to the message boxes

The class `FileIoManager` of `manager/file_manager.cpp` and the whole of `EvaluateProcess` in
`manager/manager.cpp`, with its three passes. Events are put into the queue until an evaluation
takes all of them. At its end it shows a message box for every process whose files TrID does not
recognize often enough.

`Evaluator` holds what an evaluation calls outside of the service. The answers do not change before
its end. The copies in the temporary directory are made and deleted outside.
-/

set_option autoImplicit false

namespace KernelEventsTrace.EtwService.Manager

/-! ### The queue -/

/-- The content of `file_io_queue_`. -/
abbrev FileIoQueue := List FileIoInfo

namespace FileIoQueue

/-- `PushRenameFileEventToQueue`. The times and the old path are never read. -/
def pushRenameFileEventToQueue (queue : FileIoQueue) (filePathNew : WString) (pid : UInt64) :
    FileIoQueue :=
  queue ++ [⟨RENAME_FLAG, filePathNew, pid⟩]

/-- `PushWriteFileEventToQueue`. -/
def pushWriteFileEventToQueue (queue : FileIoQueue) (filePath : WString) (pid : UInt64) :
    FileIoQueue :=
  queue ++ [⟨WRITE_FLAG, filePath, pid⟩]

/-- `PopFileIoEvent`. An empty queue gives an event without flags. -/
def popFileIoEvent : FileIoQueue → FileIoInfo × FileIoQueue
  | [] => (⟨0, [], 0⟩, [])
  | io :: queue => (io, queue)

/-- One event less, if there was one. -/
theorem length_popFileIoEvent (queue : FileIoQueue) :
    queue.popFileIoEvent.2.length = queue.length - 1 := by
  cases queue with
  | nil => rfl
  | cons io queue => rfl

/-- The loop of `EvaluateProcess` over the queue, while it holds the mutex. -/
def takeAll (fileIoList : List FileIoInfo) (queue : FileIoQueue) :
    List FileIoInfo × FileIoQueue :=
  if queue.length > 0 then
    takeAll (fileIoList ++ [queue.popFileIoEvent.1]) queue.popFileIoEvent.2
  else (fileIoList, queue)
termination_by queue.length
decreasing_by
  rw [length_popFileIoEvent]
  omega

end FileIoQueue

/-! ### The report -/

/-- In percent. -/
def THRESHOLD_PERCENTAGE : UInt64 := 80

/-- `BelowThreshold`. -/
def belowThreshold (part total : UInt64) : Bool := part ≤ total * THRESHOLD_PERCENTAGE / 100

/-- A message box with the title "Ransomware detected". -/
structure Alert where
  pid : UInt64
  text : WString
  deriving Repr, DecidableEq

/-- The text of the message box. -/
def alertText (pid : UInt64) (imageName : WString) : WString :=
  if imageName ≠ [] then
    wide "PID " ++ wide (toString pid) ++ wide " (" ++ imageName ++ wide ")" ++
      wide " is ransomware."
  else wide "PID " ++ wide (toString pid) ++ wide " is ransomware."

/-- The process has enough files, and too few of them are recognized. -/
def isRansomware (stats : Nat × Nat) : Bool :=
  UInt64.ofNat stats.2 ≥ MIN_FILE_COUNT ∧
    belowThreshold (UInt64.ofNat stats.1) (UInt64.ofNat stats.2)

/-- What an evaluation calls. -/
structure Evaluator where
  fs : FileSystem
  tools : ScanTools
  isPrintableFile : WString → Bool
  exec : ExecCommand
  files : NtFiles
  locale : Locale
  owners : Owners
  /-- The order in which `std::unordered_map` goes through its keys. -/
  order : List UInt64 → List UInt64
  order_perm : ∀ pids, (order pids).Perm pids

/-- What outlives an evaluation. -/
structure Service where
  queue : FileIoQueue
  processes : State

namespace Evaluator

variable (ev : Evaluator)

/-- A round of the last loop, for an entry of `proc_check_results`. -/
def reportStep (s : List Alert × State) (entry : UInt64 × (Nat × Nat)) : List Alert × State :=
  if isRansomware entry.2 then
    let (imageName, processes) := getImageFileName ev.files ev.locale ev.owners s.2 entry.1
    (s.1 ++ [⟨entry.1, alertText entry.1 imageName⟩], processes)
  else s

/-- The entries of `proc_check_results`, in the order of the iteration. The keys are PIDs of
listed files. -/
def entries (procCheckResults : UInt64 → Option (Nat × Nat)) (fileList : List FileInfo) :
    List (UInt64 × (Nat × Nat)) :=
  (ev.order ((fileList.map FileInfo.pid).dedup.filter fun pid =>
    (procCheckResults pid).isSome)).filterMap fun pid => (procCheckResults pid).map (pid, ·)

/-- The last loop. -/
def report (procCheckResults : UInt64 → Option (Nat × Nat)) (fileList : List FileInfo)
    (processes : State) : List Alert × State :=
  (ev.entries procCheckResults fileList).foldl ev.reportStep ([], processes)

/-- `EvaluateProcess`, with the message boxes that it shows, or `none` for an exception. -/
def evaluateProcess (service : Service) : Option (List Alert × Service) :=
  let (fileIoList, queue) := FileIoQueue.takeAll [] service.queue
  match secondPass ev.fs ev.tools fileIoList with
  | none => none
  | some selected =>
    match tridMap ev.locale ev.isPrintableFile ev.exec ev.fs.hash selected.paths with
    | none => none
    | some verdicts =>
      let checked := thirdPass ev.fs ev.locale ev.isPrintableFile verdicts selected.fileList
      let (alerts, processes) :=
        ev.report checked.procCheckResults selected.fileList service.processes
      some (alerts, ⟨queue, processes⟩)

end Evaluator

/-! ### Runs -/

/-- A call of the service. -/
inductive ServiceCall where
  | pushRenameFileEventToQueue (filePathNew : WString) (pid : UInt64)
  | pushWriteFileEventToQueue (filePath : WString) (pid : UInt64)
  | process (files : NtFiles) (locale : Locale) (call : ProcessCall)
  | evaluateProcess (ev : Evaluator)

/-- An evaluation that has ended, with what it took from the queue. -/
structure Evaluation where
  ev : Evaluator
  fileIoList : List FileIoInfo
  alerts : List Alert

/-- The state, and the evaluations so far. -/
structure ServiceRun where
  service : Service
  evaluations : List Evaluation := []

/-- A call, or `none` for an exception. -/
def ServiceRun.step (r : ServiceRun) : ServiceCall → Option ServiceRun
  | .pushRenameFileEventToQueue filePathNew pid =>
    some { r with service.queue :=
      r.service.queue.pushRenameFileEventToQueue filePathNew pid }
  | .pushWriteFileEventToQueue filePath pid =>
    some { r with service.queue := r.service.queue.pushWriteFileEventToQueue filePath pid }
  | .process files locale call =>
    some { r with service.processes := stepProcess files locale r.service.processes call }
  | .evaluateProcess ev =>
    (ev.evaluateProcess r.service).map fun result =>
      let fileIoList := (FileIoQueue.takeAll [] r.service.queue).1
      ⟨result.2, r.evaluations ++ [⟨ev, fileIoList, result.1⟩]⟩

/-- Nothing has happened yet. -/
def ServiceRun.initial : ServiceRun := ⟨⟨[], ⟨fun _ => none, fun _ => none⟩⟩, []⟩

/-- A sequence of calls. -/
def ServiceRun.run (r : ServiceRun) (calls : List ServiceCall) : Option ServiceRun :=
  calls.foldlM ServiceRun.step r

end KernelEventsTrace.EtwService.Manager
