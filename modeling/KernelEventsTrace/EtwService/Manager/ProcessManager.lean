import KernelEventsTrace.EtwService.Manager.Win32Path

/-!
# `KernelEventsTrace.EtwService.Manager.ProcessManager`: the processes that the service knows

The class `ProcessManager` of `manager/process_manager.cpp`, and its caller
`KernelConsumer::ProcessProcessEvent` of `etw/consumer.cpp`. `GetImageFileName` remembers what it
found out, in the map that the Start and End events maintain.

The system can give a PID to another process at any time. `Owners` says to which process a PID
belongs at one moment.

The log of a run is not part of the service. It records which process was started under which PID,
and what `GetImageFileName` was asked for and has answered.
-/

set_option autoImplicit false

namespace KernelEventsTrace.EtwService.Manager

/-! ### The class -/

/-- `ProcessInfo`. -/
structure ProcessInfo where
  pid : UInt64 := 0
  ppidReal : UInt64 := 0
  ppidAdopted : UInt64 := 0
  creationTime : UInt64 := 0
  imageFileName : WString := []
  deriving Repr, DecidableEq

/-- The content of `process_map_`. -/
abbrev ProcessMap := UInt64 → Option ProcessInfo

/-- A process, by the name that `GetProcessImageFileName` gives it. -/
structure Process where
  image : WString
  image_ne : image ≠ []
  deriving Repr, DecidableEq

/-- The process that owns a PID, if it can be opened. -/
abbrev Owners := UInt32 → Option Process

/-- The state of the service that is read or written: `process_map_` and `kWin32Path`. -/
structure State where
  processMap : ProcessMap
  kWin32Path : Win32PathMap

/-- `AddProcess`. -/
def addProcess (m : ProcessMap) (pid ppidReal ppidAdopted : UInt64) : ProcessMap :=
  -- An entry that is there keeps its image.
  let info := (m pid).getD {}
  Function.update m pid (some { info with
    pid := pid
    ppidReal := if ppidReal = 0 - 1 then 0 else ppidReal
    ppidAdopted := if ppidAdopted = 0 - 1 then 0 else ppidAdopted })

/-- `RemoveProcess`. -/
def removeProcess (m : ProcessMap) (pid : UInt64) : ProcessMap := Function.update m pid none

/-- `UpdateImageFileName`. -/
def updateImageFileName (m : ProcessMap) (pid : UInt64) (imageFileName : WString) : ProcessMap :=
  match m pid with
  | some info => Function.update m pid (some { info with imageFileName := imageFileName })
  | none =>
    let info : ProcessInfo := { imageFileName := imageFileName, pid := pid }
    Function.update m pid (some info)

/-- `IsChild`. -/
def isChild (m : ProcessMap) (ppid pid : UInt64) : Bool :=
  match m pid with
  | some info => info.ppidReal = ppid ∨ info.ppidAdopted = ppid
  | none => false

/-- `GetProcessInfo`. The operator `[]` of the map inserts an entry if there is none. -/
def getProcessInfo (m : ProcessMap) (pid : UInt64) : ProcessInfo × ProcessMap :=
  match m pid with
  | some info => (info, m)
  | none => ({}, Function.update m pid (some {}))

/-- `UpdateProcessCreationTime`. -/
def updateProcessCreationTime (m : ProcessMap) (pid creationTime : UInt64) : ProcessMap :=
  match m pid with
  | some info => Function.update m pid (some { info with creationTime := creationTime })
  | none => m

/-- The buffer after `OpenProcess` and `GetProcessImageFileName`. It is doubled until the name
fits. If the process cannot be opened, it is still full of zeros. -/
def imageBuffer (owners : Owners) (pid : UInt64) : WString :=
  match owners pid.toUInt32 with
  | some process => process.image
  | none => List.replicate (MAX_PATH * 4) 0

section
variable (files : NtFiles) (locale : Locale)

/-- `GetImageFileName` of a PID without a name in the map. -/
def lookUpImageFileName (owners : Owners) (s : State) (pid : UInt64) : WString × State :=
  let (image, kWin32Path) := getWin32Path files locale s.kWin32Path (imageBuffer owners pid)
  if image.length > 0 then (image, ⟨updateImageFileName s.processMap pid image, kWin32Path⟩)
  else (image, ⟨s.processMap, kWin32Path⟩)

/-- `GetImageFileName`. -/
def getImageFileName (owners : Owners) (s : State) (pid : UInt64) : WString × State :=
  match s.processMap pid with
  | some info =>
    if info.imageFileName.length > 0 then (info.imageFileName, s)
    else lookUpImageFileName files locale owners s pid
  | none => lookUpImageFileName files locale owners s pid

/-- A call of a method. `GetImageFileName` comes with the owners of the PIDs at its moment. -/
inductive ProcessCall where
  | addProcess (pid ppidReal ppidAdopted : UInt64)
  | removeProcess (pid : UInt64)
  | isChild (ppid pid : UInt64)
  | updateImageFileName (pid : UInt64) (imageFileName : WString)
  | getImageFileName (owners : Owners) (pid : UInt64)
  | updateProcessCreationTime (pid creationTime : UInt64)
  | getProcessInfo (pid : UInt64)

/-- The state after a call. -/
def stepProcess (s : State) : ProcessCall → State
  | .addProcess pid ppidReal ppidAdopted =>
    { s with processMap := addProcess s.processMap pid ppidReal ppidAdopted }
  | .removeProcess pid => { s with processMap := removeProcess s.processMap pid }
  | .isChild _ _ => s
  | .updateImageFileName pid imageFileName =>
    { s with processMap := updateImageFileName s.processMap pid imageFileName }
  | .getImageFileName owners pid => (getImageFileName files locale owners s pid).2
  | .updateProcessCreationTime pid creationTime =>
    { s with processMap := updateProcessCreationTime s.processMap pid creationTime }
  | .getProcessInfo pid => { s with processMap := (getProcessInfo s.processMap pid).2 }

/-- The state after a sequence of calls, from an empty `ProcessManager`. -/
def runProcess (calls : List ProcessCall) : State :=
  calls.foldl (stepProcess files locale) ⟨fun _ => none, fun _ => none⟩

end

/-! ### Events -/

/-- The fields of a Start event that are read. -/
structure ProcessStartEvent where
  pid : UInt64
  ppid : UInt64
  /-- `GetProcessId()` of the event. -/
  processId : UInt64
  timeInMs : UInt64
  deriving Repr, DecidableEq

/-- What happens: a process was started, a process has ended, or some other part of the service
asks for an image. -/
inductive ProcessEvent where
  | start (event : ProcessStartEvent) (process : Process)
  | stop (pid : UInt64)
  | query (pid : UInt64)
  deriving Repr, DecidableEq

/-- An entry of the log. A call comes with the content of `kWin32Path` when it was made. -/
inductive Entry where
  | started (pid : UInt64) (process : Process)
  | ended (pid : UInt64)
  | call (pid : UInt64) (kWin32Path : Win32PathMap) (answer : WString)

/-- The state, and the log. -/
structure Run where
  state : State
  log : List Entry

/-- `static_cast<int>`, as an argument of the type `uint64_t`. -/
def castInt (n : UInt64) : UInt64 := n.toUInt32.toInt32.toInt64.toUInt64

section
variable (files : NtFiles) (locale : Locale) (owners : Owners)

/-- A call of `GetImageFileName`. -/
def Run.ask (r : Run) (pid : UInt64) : Run :=
  let a := getImageFileName files locale owners r.state pid
  ⟨a.2, r.log ++ [.call pid r.state.kWin32Path a.1]⟩

/-- The Start event in `ProcessProcessEvent`. -/
def Run.onStart (r : Run) (event : ProcessStartEvent) (process : Process) : Run :=
  let pid := castInt event.pid
  let realPpid := castInt event.processId
  let spoofedPpid := castInt event.ppid
  let r : Run := { r with log := r.log ++ [.started event.pid process] }
  let r := r.ask files locale owners pid
  let r := r.ask files locale owners realPpid
  let r := r.ask files locale owners spoofedPpid
  let m := addProcess r.state.processMap pid realPpid spoofedPpid
  let m := updateProcessCreationTime m pid event.timeInMs
  { r with state := { r.state with processMap := m } }

/-- The End event in `ProcessProcessEvent`. -/
def Run.onEnd (r : Run) (pid : UInt64) : Run :=
  let r := r.ask files locale owners pid
  ⟨{ r.state with processMap := removeProcess r.state.processMap pid }, r.log ++ [.ended pid]⟩

/-- The run after an event. -/
def Run.step (r : Run) : ProcessEvent → Run
  | .start event process => r.onStart files locale owners event process
  | .stop pid => r.onEnd files locale owners pid
  | .query pid => r.ask files locale owners pid

end

/-- No process is known, and nothing was asked for. -/
def Run.initial : Run := ⟨⟨fun _ => none, fun _ => none⟩, []⟩

/-- The run after a sequence of events. Each comes with the owners at its moment. -/
def runEvents (files : NtFiles) (locale : Locale) (events : List (Owners × ProcessEvent)) : Run :=
  events.foldl (fun r e => r.step files locale e.1 e.2) .initial

end KernelEventsTrace.EtwService.Manager
