import KernelEventsTrace.EtwService.Consumer

/-!
# `KernelEventsTrace.EtwService.ProcessEvent`: the events as they arrive

`KernelConsumer::ProcessEvent` of `etw/consumer.cpp` with the accessors of `etw/event.cpp` and
`OverallEventFilter` of `manager/manager.cpp`. An event arrives with a header and a payload. The
header decides which handler gets it, if any, and the handler decodes the payload.

`Consumer` is what the service keeps between the events. Besides its maps these are the offset
records, one for each type of event.

What the handlers print is that of the debug build. The release build also passes the image name,
a narrow string, to the `%s` of a wide format.
-/

set_option autoImplicit false

namespace KernelEventsTrace.EtwService

open Manager (Owners)

/-! ### Headers -/

/-- `Header.Guid`, by the constants that it is compared with. -/
inductive Guid where
  | eventTrace | diskIo | fileIo | pageFault | perfInfo | thread | process | registry
  | other
  deriving Repr, DecidableEq

/-- `EVENT_TRACE`. -/
structure EventTrace where
  guid : Guid
  version : UInt16
  type : UInt8
  processId : UInt32
  /-- `Header.TimeStamp.QuadPart`. -/
  timeStamp : Int64
  payload : Event

namespace EventTrace

/-- `GetProcessId`. -/
def getProcessId (event : EventTrace) : UInt64 := event.processId.toUInt64

/-- `GetTimeInMs`. -/
def getTimeInMs (event : EventTrace) : UInt64 := (event.timeStamp / 10000).toUInt64

/-- What the handlers read of the header. -/
def header (event : EventTrace) : EventHeader := ⟨event.getProcessId, event.getTimeInMs⟩

end EventTrace

/-- Events of this type carry information about the trace. -/
def EVENT_TRACE_TYPE_INFO : UInt8 := 0

/-! `FileIoEventType` and `ProcessEventType`, as far as a branch does something. -/

def kCreate : UInt8 := 64

def kWrite : UInt8 := 68

def kClose : UInt8 := 66

def kProcessStart : UInt8 := 1

def kProcessEnd : UInt8 := 2

/-! ### The consumer -/

/-- What the system answers while an event is handled. -/
structure Answers where
  owners : Owners
  files : Manager.NtFiles
  /-- `manager::DirExist`. -/
  dirExist : WString → Bool

/-- WMI, the C library, and the PID of the service. -/
structure Host where
  locale : Locale
  kCurrentPid : UInt64
  /-- `WmiEventClass(guid, version, type, sizeof(PVOID))`. -/
  wmiEventClass : Guid → UInt16 → UInt8 → WmiEventClass

/-- The class of an event. -/
def Host.classOf (host : Host) (event : EventTrace) : WmiEventClass :=
  host.wmiEventClass event.guid event.version event.type

/-- `OverallEventFilter`. -/
def overallEventFilter (kCurrentPid issuingPid : UInt64) : Bool :=
  if issuingPid = 0 ∨ issuingPid = kCurrentPid then false else true

/-- What a handler prints, besides the time. Of a `%lld` that gets an `int` these are the 32 bits
that were passed. -/
inductive Printed where
  | file (report : Report)
  /-- The third image is that of the spoofed parent, if it is not the real one. -/
  | processStart (pid realPpid : UInt32) (imagePath realPpidImagePath : WString)
      (spoofed : Option (UInt32 × WString))
  | processEnd (pid : UInt64) (imagePath : WString)
  deriving Repr, DecidableEq

/-! ### The handlers on decoded events -/

section
variable (host : Host) (answers : Answers) (s : Manager.State)

/-- A path is looked up with the drives that are known. -/
def os : Os where
  getWin32PathCaseSensitive := fun path =>
    (Manager.getWin32PathCaseSensitive answers.files s.kWin32Path path).1
  toLower := Ulti.toLower host.locale
  dirExist := answers.dirExist

/-- The look-up of `open_path` can add a drive. -/
def afterCreate (openPath : WString) : Manager.State :=
  { s with kWin32Path := Manager.stepPath answers.files host.locale s.kWin32Path (.lower openPath) }

/-- `GetImageFileName`. -/
def imageOf (s : Manager.State) (pid : UInt64) : WString × Manager.State :=
  Manager.getImageFileName answers.files host.locale answers.owners s pid

/-- What is printed for a Start event. -/
def printStart (event : Manager.ProcessStartEvent) : Printed :=
  let (imagePath, s) := imageOf host answers s (Manager.castInt event.pid)
  let (realPpidImagePath, s) := imageOf host answers s (Manager.castInt event.processId)
  let (spoofedPpidImagePath, _) := imageOf host answers s (Manager.castInt event.ppid)
  let spoofed :=
    if event.processId.toUInt32 ≠ event.ppid.toUInt32 then
      some (event.ppid.toUInt32, spoofedPpidImagePath)
    else none
  .processStart event.pid.toUInt32 event.processId.toUInt32 imagePath realPpidImagePath spoofed

/-- What is printed for an End event. -/
def printEnd (pid : UInt64) : Printed := .processEnd pid (imageOf host answers s pid).1

end

/-! ### The service -/

/-- What the service keeps between the events. -/
structure Consumer extends Service where
  fileIoWriteOffset : EventOffset
  fileIoCloseOffset : EventOffset

namespace Consumer

section
variable (host : Host) (answers : Answers) (event : EventTrace) (c : Consumer)

/-- The branch of `ProcessFileIoEvent` for Create events. -/
def onCreate : Except EventFault (Consumer × Option Printed) := do
  let (fields, o) ← FileIoCreateEventMember.construct (host.classOf event) event.payload
    c.fileIoCreateOffset
  let openPath ← wideStringAt event.payload fields.openPath
  let (maps, report) := processCreate (os host answers c.processes) c.maps event.getProcessId
    ⟨fields.fileObject, fields.createOptions, openPath⟩
  let processes := afterCreate host answers c.processes openPath
  return ({ c with maps := maps, processes := processes, fileIoCreateOffset := o },
    report.map .file)

/-- The branch for Write events. -/
def onWrite : Except EventFault (Consumer × Option Printed) := do
  let (fields, o) ← FileIoReadWriteEventMember.construct (host.classOf event) event.payload
    c.fileIoWriteOffset
  let (maps, report) := processWrite c.maps event.getProcessId
    ⟨fields.fileObject, fields.fileKey, fields.offset, fields.ioSize⟩
  return ({ c with maps := maps, fileIoWriteOffset := o }, report.map .file)

/-- The branch for Close events. -/
def onClose : Except EventFault (Consumer × Option Printed) := do
  let (fields, o) ← FileIoSimpleOpEventMember.construct (host.classOf event) event.payload
    c.fileIoCloseOffset
  let (maps, report) := processClose c.maps event.getProcessId ⟨fields.fileObject, fields.fileKey⟩
  return ({ c with maps := maps, fileIoCloseOffset := o }, report.map .file)

/-- `ProcessFileIoEvent`. -/
def processFileIoEvent : Except EventFault (Consumer × Option Printed) :=
  if event.type = kCreate then c.onCreate host answers event
  else if event.type = kWrite then c.onWrite host event
  else if event.type = kClose then c.onClose host event
  -- The other branches are empty, or return before they do anything.
  else .ok (c, none)

/-- The branch of `ProcessProcessEvent` for Start events. The image name is made into a string,
which the debug build does not print. -/
def onStart : Except EventFault (Consumer × Option Printed) := do
  let (fields, o) ← ProcessTypeGroup1EventMember.construct (host.classOf event) event.payload
    c.processStartOffset
  let _image ← narrowStringAt event.payload fields.imageFileName
  let start := ⟨fields.pid, fields.ppid, event.getProcessId, event.getTimeInMs⟩
  let processes := c.processes.onStart answers.files host.locale answers.owners start
  return ({ c with processes := processes, processStartOffset := o },
    some (printStart host answers c.processes start))

/-- The branch for End events. -/
def onEnd : Except EventFault (Consumer × Option Printed) := do
  let (fields, o) ← ProcessTypeGroup1EventMember.construct (host.classOf event) event.payload
    c.processEndOffset
  let processes := c.processes.onEnd answers.files host.locale answers.owners fields.pid
  return ({ c with processes := processes, processEndOffset := o },
    some (printEnd host answers c.processes fields.pid))

/-- `ProcessProcessEvent`. -/
def processProcessEvent : Except EventFault (Consumer × Option Printed) :=
  if event.type = kProcessStart then c.onStart host answers event
  else if event.type = kProcessEnd then c.onEnd host answers event
  else .ok (c, none)

/-- `ProcessEvent`. -/
def processEvent : Except EventFault (Consumer × Option Printed) :=
  if event.guid = .eventTrace ∨ event.type = EVENT_TRACE_TYPE_INFO then .ok (c, none)
  else if overallEventFilter host.kCurrentPid event.getProcessId = false then .ok (c, none)
  else match event.guid with
    | .fileIo => c.processFileIoEvent host answers event
    | .process => c.processProcessEvent host answers event
    -- The handlers of the other classes are commented out.
    | _ => .ok (c, none)

end

/-- The consumer after a sequence of events, and what was printed. Each comes with the answers of
its moment. -/
def processEvents (host : Host) :
    List (Answers × EventTrace) → Consumer → Except EventFault (Consumer × List Printed)
  | [], c => .ok (c, [])
  | (answers, event) :: events, c => do
    let (c, printed) ← c.processEvent host answers event
    let (c, later) ← processEvents host events c
    return (c, printed.toList ++ later)

/-- At the start of the service. -/
def initial : Consumer where
  maps := .initial
  processes := ⟨fun _ => none, fun _ => none⟩
  fileIoCreateOffset := {}
  processStartOffset := {}
  processEndOffset := {}
  fileIoWriteOffset := {}
  fileIoCloseOffset := {}

end Consumer

end KernelEventsTrace.EtwService
