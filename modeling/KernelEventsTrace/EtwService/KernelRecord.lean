import KernelEventsTrace.EtwService.ProcessEvent

/-!
# `KernelEventsTrace.EtwService.KernelRecord`: what the events are for

The kernel writes an event value after value. A `KernelRecord` has these values, its `arrival` is
the event that the service gets, and its `meaning` is what the values say, by the names of their
properties. There are no offsets on this side. `Tables.run` is what the service is meant to do with
the events that it handles.
-/

set_option autoImplicit false

namespace KernelEventsTrace.EtwService

/-! ### Records -/

/-- The types of events whose handler does something. -/
inductive Handled where
  | fileIoCreate | fileIoWrite | fileIoClose | processStart | processEnd
  deriving Repr, DecidableEq

namespace Handled

/-- The GUID of the event class. -/
def guid : Handled → Guid
  | fileIoCreate | fileIoWrite | fileIoClose => .fileIo
  | processStart | processEnd => .process

/-- The type of the event. -/
def type : Handled → UInt8
  | fileIoCreate => kCreate
  | fileIoWrite => kWrite
  | fileIoClose => kClose
  | processStart => kProcessStart
  | processEnd => kProcessEnd

/-- The constructor that decodes the event. -/
def member : Handled → EventMember
  | fileIoCreate => fileIoCreateEventMember
  | fileIoWrite => fileIoReadWriteEventMember
  | fileIoClose => fileIoSimpleOpEventMember
  | processStart | processEnd => processTypeGroup1EventMember

/-- The strings that the constructor points to. The flag is whether their characters are wide. -/
def texts : Handled → List (String × Bool)
  | fileIoCreate => [("OpenPath", true)]
  | fileIoWrite | fileIoClose => []
  | processStart | processEnd => [("ImageFileName", false), ("CommandLine", true)]

/-- There are five of them. -/
def all : List Handled := [fileIoCreate, fileIoWrite, fileIoClose, processStart, processEnd]

end Handled

/-- The classes of the handled events on a system, with their properties in the order of the
ids. -/
structure Format where
  version : Handled → UInt16
  pClass : Handled → List Property
  ordered : Handled → List Property

/-- An event by the values of its properties, in the order of their ids, with what the system
answers at its moment. -/
structure KernelRecord where
  guid : Guid
  version : UInt16
  type : UInt8
  processId : UInt32
  timeStamp : Int64
  values : List (List UInt8)
  size_lt : values.flatten.length < 2 ^ 31
  answers : Answers

/-- What an event says. -/
inductive KernelEvent where
  | file (event : FileIoEvent)
  | processStart (event : Manager.ProcessStartEvent)
  | processEnd (pid : UInt64)
  /-- An event that is not handled. -/
  | unused

namespace Format

variable (f : Format) (k : Handled) (values : List (List UInt8))

/-- The value of the named property. -/
def bytesOf (name : WString) : List UInt8 :=
  values[(f.ordered k).findIdx fun p => getPropertyName p = name]?.getD []

/-- The value as a number. -/
def number (name : String) : UInt64 := UInt64.ofNat (littleEndian (f.bytesOf k values (wide name)))

/-- The value as a wide string, without its terminator. -/
def text (name : String) : WString := (wchars (f.bytesOf k values (wide name))).dropLast

end Format

namespace KernelRecord

/-- The event that the service gets. -/
def event (r : KernelRecord) : EventTrace :=
  ⟨r.guid, r.version, r.type, r.processId, r.timeStamp, ⟨r.values.flatten, r.size_lt⟩⟩

/-- The event as it arrives, with the answers of its moment. -/
def arrival (r : KernelRecord) : Answers × EventTrace := (r.answers, r.event)

/-- The type of the event, if it is handled. The events of the idle process and of the service
itself are not. -/
def handled (kCurrentPid : UInt64) (r : KernelRecord) : Option Handled :=
  if r.event.getProcessId = 0 ∨ r.event.getProcessId = kCurrentPid then none
  else Handled.all.find? fun k => k.guid = r.guid ∧ k.type = r.type

/-- What the values of a handled event say. -/
def content (f : Format) (r : KernelRecord) (k : Handled) : KernelEvent :=
  let number := f.number k r.values
  match k with
  | .fileIoCreate =>
    .file (.create r.event.getProcessId
      ⟨number "FileObject", number "CreateOptions", f.text k r.values "OpenPath"⟩)
  | .fileIoWrite =>
    .file (.write r.event.getProcessId
      ⟨number "FileObject", number "FileKey", number "Offset", number "IoSize"⟩)
  | .fileIoClose =>
    .file (.close r.event.getProcessId ⟨number "FileObject", number "FileKey"⟩)
  | .processStart =>
    .processStart ⟨number "ProcessId", number "ParentId", r.event.getProcessId,
      r.event.getTimeInMs⟩
  | .processEnd => .processEnd (number "ProcessId")

/-- What the event says to the service. -/
def meaning (kCurrentPid : UInt64) (f : Format) (r : KernelRecord) : KernelEvent :=
  match r.handled kCurrentPid with
  | none => .unused
  | some k => r.content f k

end KernelRecord

/-! ### The tables -/

/-- The maps of the service. -/
structure Tables where
  maps : Maps
  processes : Manager.State

namespace Tables

/-- What a file event does to `kWin32Path`. Only the path of a Create event is looked up. -/
def afterFile (host : Host) (answers : Answers) (s : Manager.State) : FileIoEvent → Manager.State
  | .create _ fields => afterCreate host answers s fields.openPath
  | _ => s

/-- What an event does to the maps, and what is printed for it. -/
def step (host : Host) (answers : Answers) (t : Tables) : KernelEvent → Tables × Option Printed
  | .file event =>
    let (maps, report) := processFileIoEvent (os host answers t.processes) t.maps event
    (⟨maps, afterFile host answers t.processes event⟩, report.map .file)
  | .processStart event =>
    ({ t with
        processes := t.processes.onStart answers.files host.locale answers.owners event },
      some (printStart host answers t.processes event))
  | .processEnd pid =>
    ({ t with processes := t.processes.onEnd answers.files host.locale answers.owners pid },
      some (printEnd host answers t.processes pid))
  | .unused => (t, none)

/-- The maps after a sequence of events, and what was printed. -/
def run (host : Host) : List (Answers × KernelEvent) → Tables → Tables × List Printed
  | [], t => (t, [])
  | (answers, event) :: events, t =>
    let (t, printed) := t.step host answers event
    let (t, later) := run host events t
    (t, printed.toList ++ later)

/-- At the start of the service. -/
def initial : Tables := ⟨.initial, fun _ => none, fun _ => none⟩

end Tables

end KernelEventsTrace.EtwService
