import KernelEventsTrace.EtwService.EventMember
import KernelEventsTrace.EtwService.FileIo
import KernelEventsTrace.EtwService.Manager.ProcessManager

/-!
# `KernelEventsTrace.EtwService.Consumer`: the handlers on events that are not decoded yet

`ProcessFileIoEvent` for Create events and `ProcessProcessEvent` for Start and End events, from
`etw/consumer.cpp`. A handler first constructs the event. The record with the flag of the
constructor stays behind in the service, and the handler goes on with the fields, whatever they
are.

A string that is made from a null pointer ends in a fault. `PrintDebugW` prints `(null)` for one.
-/

set_option autoImplicit false

namespace KernelEventsTrace.EtwService

/-- `std::wstring` from a pointer into the payload. -/
def wideStringAt (event : Event) (pointer : Option UInt32) : Except EventFault WString :=
  match pointer with
  | none => .error .nullString
  | some offs =>
    match wcslen event offs.toNat with
    | .ok n => .ok ((wchars (event.bytesFrom offs.toNat)).take n)
    | .error fault => .error (.payload fault)

/-- `std::string` from a pointer into the payload. -/
def narrowStringAt (event : Event) (pointer : Option Int) : Except EventFault (List UInt8) :=
  match pointer with
  | none => .error .nullString
  | some offs =>
    match strlen event offs with
    | .ok n => .ok ((event.bytesFrom offs).take n)
    | .error fault => .error (.payload fault)

namespace Manager

section
variable (files : NtFiles) (locale : Locale) (owners : Owners)

/-- What `ProcessProcessEvent` does to the state for a Start event. -/
def State.onStart (s : State) (event : ProcessStartEvent) : State :=
  let pid := castInt event.pid
  let realPpid := castInt event.processId
  let spoofedPpid := castInt event.ppid
  let s := (getImageFileName files locale owners s pid).2
  let s := (getImageFileName files locale owners s realPpid).2
  let s := (getImageFileName files locale owners s spoofedPpid).2
  let m := addProcess s.processMap pid realPpid spoofedPpid
  { s with processMap := updateProcessCreationTime m pid event.timeInMs }

/-- What it does for an End event. -/
def State.onEnd (s : State) (pid : UInt64) : State :=
  let s := (getImageFileName files locale owners s pid).2
  { s with processMap := removeProcess s.processMap pid }

end

end Manager

/-- What the header of an event says. -/
structure EventHeader where
  processId : UInt64
  timeInMs : UInt64
  deriving Repr, DecidableEq

/-- What lies outside the service. -/
structure Environment where
  os : Os
  files : Manager.NtFiles
  locale : Locale
  owners : Manager.Owners

/-- The maps of the service, and the offset records of the three types of events. -/
structure Service where
  maps : Maps
  processes : Manager.State
  fileIoCreateOffset : EventOffset
  processStartOffset : EventOffset
  processEndOffset : EventOffset

/-- The handlers. -/
inductive Handler where
  | fileIoCreate
  | processStart
  | processEnd
  deriving Repr, DecidableEq

namespace Service

/-- The branch of `ProcessFileIoEvent` for Create events. -/
def onFileIoCreate (env : Environment) (wec : WmiEventClass) (header : EventHeader)
    (event : Event) (s : Service) : Except EventFault Service :=
  match FileIoCreateEventMember.construct wec event s.fileIoCreateOffset with
  | .error fault => .error fault
  | .ok (fields, o) =>
    match wideStringAt event fields.openPath with
    | .error fault => .error fault
    | .ok filePath =>
      let fields := ⟨fields.fileObject, fields.createOptions, filePath⟩
      .ok { s with
        maps := (processCreate env.os s.maps header.processId fields).1, fileIoCreateOffset := o }

/-- The branch of `ProcessProcessEvent` for Start events. The image name is only printed. -/
def onProcessStart (env : Environment) (wec : WmiEventClass) (header : EventHeader)
    (event : Event) (s : Service) : Except EventFault Service :=
  match ProcessTypeGroup1EventMember.construct wec event s.processStartOffset with
  | .error fault => .error fault
  | .ok (fields, o) =>
    match narrowStringAt event fields.imageFileName with
    | .error fault => .error fault
    | .ok _ =>
      let start := ⟨fields.pid, fields.ppid, header.processId, header.timeInMs⟩
      .ok { s with
        processes := s.processes.onStart env.files env.locale env.owners start,
        processStartOffset := o }

/-- The branch of `ProcessProcessEvent` for End events. -/
def onProcessEnd (env : Environment) (wec : WmiEventClass) (event : Event) (s : Service) :
    Except EventFault Service :=
  match ProcessTypeGroup1EventMember.construct wec event s.processEndOffset with
  | .error fault => .error fault
  | .ok (fields, o) =>
    .ok { s with
      processes := s.processes.onEnd env.files env.locale env.owners fields.pid,
      processEndOffset := o }

/-- The handler of an event. -/
def handle (env : Environment) (wec : WmiEventClass) (header : EventHeader) (event : Event)
    (s : Service) : Handler → Except EventFault Service
  | .fileIoCreate => s.onFileIoCreate env wec header event
  | .processStart => s.onProcessStart env wec header event
  | .processEnd => s.onProcessEnd env wec event

/-- The constructor that a handler calls, and the record it is given. -/
def located (s : Service) : Handler → EventMember × EventOffset
  | .fileIoCreate => (fileIoCreateEventMember, s.fileIoCreateOffset)
  | .processStart => (processTypeGroup1EventMember, s.processStartOffset)
  | .processEnd => (processTypeGroup1EventMember, s.processEndOffset)

end Service

end KernelEventsTrace.EtwService
