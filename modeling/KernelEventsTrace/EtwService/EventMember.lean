import Mathlib.Logic.Function.Basic
import KernelEventsTrace.EtwService.WmiEventClass

/-!
# `KernelEventsTrace.EtwService.EventMember`: the constructors that decode events

The `…EventMember` constructors of `etw/event/`. All events of a type share an offset record. As
long as its `is_positioned` is not set, the constructor asks `GetPropertyInfo` for one property
after the other, keeps the offsets and sizes as `DWORD`s in the record, and tests the sizes. Then
it copies the fields of the event from the offsets in the record.

The constructors differ in the properties and in what they require before the offsets are used
again. `EventMember` says so for each. Every record is kept here by the names of the properties.
-/

set_option autoImplicit false

namespace KernelEventsTrace.EtwService

/-- An `int` as a `DWORD`. -/
def dword (n : Int) : UInt32 := UInt32.ofNat (n % 2 ^ 32).toNat

/-! ### Offset records -/

/-- What a record keeps of a property. -/
structure FieldOffset where
  offs : UInt32 := 0
  size : UInt32 := 0
  deriving Repr, DecidableEq

/-- `…EventOffset`, by the names of the properties. -/
structure EventOffset where
  isPositioned : Bool := false
  isSuccessful : Bool := false
  fields : WString → FieldOffset := fun _ => {}

/-- What a constructor does with the size of a property. -/
inductive SizeUse where
  /-- It is kept, and the constructor fails if it is 0. -/
  | tested
  /-- It is kept. -/
  | kept
  /-- Only the offset is kept. -/
  | dropped
  deriving Repr, DecidableEq

/-- A property that a constructor asks for. -/
structure Lookup where
  name : WString
  sizeUse : SizeUse
  deriving Repr, DecidableEq

/-- When the offsets are used for the next event. -/
inductive Positioning where
  | always
  /-- If the offset of the named property is greater than those of all tested ones. -/
  | behindTested (name : WString)
  deriving Repr, DecidableEq

/-- A constructor by what it asks for. -/
structure EventMember where
  lookups : List Lookup
  positioning : Positioning
  names_nodup : (lookups.map Lookup.name).Nodup

/-- A `WmiEventClass` with what it is answered in the call of `GetPropertyInfo` for each name. -/
structure WmiEventClass where
  host : WString → WmiHost
  pointerSize : UInt16
  eventClass : Option (List Property)

/-- `GetPropertyInfo` of an object, which knows its class and the size of a pointer. -/
def WmiEventClass.getPropertyInfo (wec : WmiEventClass) (propertyName : WString) (event : Event) :
    Except Fault (Int × Int) :=
  EtwService.getPropertyInfo (wec.host propertyName) wec.pointerSize wec.eventClass propertyName
    event

/-- The assignments after a call of `GetPropertyInfo`. -/
def EventOffset.store (o : EventOffset) (lookup : Lookup) (info : Int × Int) : EventOffset :=
  let size := if lookup.sizeUse = .dropped then (o.fields lookup.name).size else dword info.2
  { o with fields := Function.update o.fields lookup.name ⟨dword info.1, size⟩ }

/-- The calls of `GetPropertyInfo`, one for each property. -/
def lookUpAll (wec : WmiEventClass) (event : Event) :
    List Lookup → EventOffset → Except Fault EventOffset
  | [], o => .ok o
  | lookup :: lookups, o =>
    match wec.getPropertyInfo lookup.name event with
    | .ok info => lookUpAll wec event lookups (o.store lookup info)
    | .error fault => .error fault

namespace EventMember

/-- No size that is tested is 0. -/
def sizesFound (m : EventMember) (o : EventOffset) : Bool :=
  m.lookups.all fun lookup => lookup.sizeUse ≠ .tested ∨ (o.fields lookup.name).size ≠ 0

/-- The offsets can be used for the next event. -/
def positioned (m : EventMember) (o : EventOffset) : Bool :=
  match m.positioning with
  | .always => true
  | .behindTested name =>
    m.lookups.all fun lookup =>
      lookup.sizeUse ≠ .tested ∨ (o.fields lookup.name).offs < (o.fields name).offs

/-- The constructor up to the copies. The flag is whether it gets to them. -/
def locate (m : EventMember) (wec : WmiEventClass) (event : Event) (o : EventOffset) :
    Except Fault (EventOffset × Bool) :=
  if o.isPositioned then .ok (o, true)
  else match lookUpAll wec event m.lookups o with
    | .error fault => .error fault
    | .ok o =>
      if m.sizesFound o then
        .ok ({ o with isSuccessful := true, isPositioned := m.positioned o }, true)
      else .ok ({ o with isSuccessful := false }, false)

/-- The record after a sequence of events. -/
def records (m : EventMember) (wec : WmiEventClass) :
    EventOffset → List Event → Except Fault EventOffset
  | o, [] => .ok o
  | o, event :: events =>
    match m.locate wec event o with
    | .ok (o, _) => m.records wec o events
    | .error fault => .error fault

end EventMember

/-! ### The constructors -/

/-- A property whose size is tested. -/
def tested (name : String) : Lookup := ⟨wide name, .tested⟩

/-- A property whose size is kept, and not tested. -/
def kept (name : String) : Lookup := ⟨wide name, .kept⟩

/-- A property of which only the offset is kept. -/
def offsetOnly (name : String) : Lookup := ⟨wide name, .dropped⟩

/-- `FileIoCreateEventMember`. The text at the end has no size. -/
def fileIoCreateEventMember : EventMember where
  lookups := [tested "IrpPtr", tested "TTID", tested "FileObject", tested "CreateOptions",
    tested "FileAttributes", tested "ShareAccess", offsetOnly "OpenPath"]
  positioning := .behindTested (wide "OpenPath")
  names_nodup := by decide

/-- `FileIoDirEnumEventMember`. -/
def fileIoDirEnumEventMember : EventMember where
  lookups := [tested "IrpPtr", tested "TTID", tested "FileObject", tested "FileKey",
    tested "Length", tested "InfoClass", tested "FileIndex", offsetOnly "FileName"]
  positioning := .behindTested (wide "FileName")
  names_nodup := by decide

/-- `FileIoInfoEventMember`. -/
def fileIoInfoEventMember : EventMember where
  lookups := [tested "IrpPtr", tested "TTID", tested "FileObject", tested "FileKey",
    tested "ExtraInfo", tested "InfoClass"]
  positioning := .always
  names_nodup := by decide

/-- `FileIoNameEventMember`. -/
def fileIoNameEventMember : EventMember where
  lookups := [tested "FileObject", offsetOnly "FileName"]
  positioning := .behindTested (wide "FileName")
  names_nodup := by decide

/-- `FileIoOpEndEventMember`. -/
def fileIoOpEndEventMember : EventMember where
  lookups := [tested "IrpPtr", tested "ExtraInfo", tested "NtStatus"]
  positioning := .always
  names_nodup := by decide

/-- `FileIoReadWriteEventMember`. -/
def fileIoReadWriteEventMember : EventMember where
  lookups := [tested "Offset", tested "IrpPtr", tested "TTID", tested "FileObject",
    tested "FileKey", tested "IoSize", tested "IoFlags"]
  positioning := .always
  names_nodup := by decide

/-- `FileIoSimpleOpEventMember`. -/
def fileIoSimpleOpEventMember : EventMember where
  lookups := [tested "IrpPtr", tested "TTID", tested "FileObject", tested "FileKey"]
  positioning := .always
  names_nodup := by decide

/-- `ProcessTypeGroup1EventMember`. Its texts and the SID are looked up in every event. -/
def processTypeGroup1EventMember : EventMember where
  lookups := [tested "UniqueProcessKey", tested "ProcessId", tested "ParentId",
    tested "SessionId", tested "ExitStatus", tested "DirectoryTableBase"]
  positioning := .always
  names_nodup := by decide

/-- `ThreadTypeGroup1EventMember`. -/
def threadTypeGroup1EventMember : EventMember where
  lookups := [tested "ProcessId", tested "TThreadId", tested "StackBase", tested "StackLimit",
    tested "UserStackBase", tested "UserStackLimit", tested "Affinity", tested "Win32StartAddr",
    tested "TebBase", tested "SubProcessTag", tested "BasePriority", tested "PagePriority",
    tested "IoPriority", tested "ThreadFlags"]
  positioning := .always
  names_nodup := by decide

/-- `ImageLoadEventMember`. -/
def imageLoadEventMember : EventMember where
  lookups := [tested "ImageBase", tested "ImageSize", tested "ProcessId",
    tested "ImageCheckSum", tested "TimeDateStamp", kept "Reserved0", kept "DefaultBase",
    tested "FileName"]
  positioning := .always
  names_nodup := by decide

/-- `RegistryTypeGroup1EventMember`. The first name has a blank in it. -/
def registryTypeGroup1EventMember : EventMember where
  lookups := [tested "Initial Time", tested "Status", tested "Index", tested "KeyHandle",
    tested "KeyName"]
  positioning := .always
  names_nodup := by decide

/-- `DiskIoEventTypeGroup1Member`. -/
def diskIoEventTypeGroup1Member : EventMember where
  lookups := [tested "DiskNumber", tested "IrpFlags", tested "TransferSize", tested "Reserved",
    tested "ByteOffset", tested "FileObject", tested "Irp", tested "HighResResponseTime",
    tested "IssuingThreadId"]
  positioning := .always
  names_nodup := by decide

/-- `PageFaultVirtualAllocEventMember`. -/
def pageFaultVirtualAllocEventMember : EventMember where
  lookups := [tested "BaseAddress", tested "RegionSize", tested "ProcessId", tested "Flags"]
  positioning := .always
  names_nodup := by decide

/-- `SysCallEnterEventMember`. -/
def sysCallEnterEventMember : EventMember where
  lookups := [tested "SysCallAddress"]
  positioning := .always
  names_nodup := by decide

/-! ### The fields of the events that are handled -/

/-- Undefined behaviour around an event. -/
inductive EventFault where
  /-- In `GetPropertyInfo`, or in a read of the payload. -/
  | payload (fault : Fault)
  /-- A copy of more bytes than the field has. -/
  | overrun
  /-- A string is made from a null pointer. -/
  | nullString
  deriving Repr, DecidableEq

/-- `memcpy` to a field of 8 bytes that is 0 before. -/
def copyField (event : Event) (f : FieldOffset) : Except EventFault UInt64 :=
  if 8 < f.size then .error .overrun
  else match event.copyMemory f.offs.toNat f.size.toNat with
    | .ok bytes => .ok (UInt64.ofNat (littleEndian bytes))
    | .error fault => .error (.payload fault)

/-- `FileIoCreateEventMember`. A pointer into the payload is kept as its offset, and `nullptr` as
`none`. -/
structure FileIoCreateEventMember where
  irpPtr : UInt64 := 0
  ttid : UInt64 := 0
  fileObject : UInt64 := 0
  createOptions : UInt64 := 0
  fileAttributes : UInt64 := 0
  shareAccess : UInt64 := 0
  openPath : Option UInt32 := none
  deriving Repr, DecidableEq

/-- The copies of the constructor. -/
def FileIoCreateEventMember.read (event : Event) (o : EventOffset) :
    Except EventFault FileIoCreateEventMember := do
  let irpPtr ← copyField event (o.fields (wide "IrpPtr"))
  let ttid ← copyField event (o.fields (wide "TTID"))
  let fileObject ← copyField event (o.fields (wide "FileObject"))
  let createOptions ← copyField event (o.fields (wide "CreateOptions"))
  let fileAttributes ← copyField event (o.fields (wide "FileAttributes"))
  let shareAccess ← copyField event (o.fields (wide "ShareAccess"))
  return { irpPtr, ttid, fileObject, createOptions, fileAttributes, shareAccess,
           openPath := some (o.fields (wide "OpenPath")).offs }

/-- The constructor, with the record that it leaves. If a size that is tested is 0, the fields keep
their defaults. -/
def FileIoCreateEventMember.construct (wec : WmiEventClass) (event : Event) (o : EventOffset) :
    Except EventFault (FileIoCreateEventMember × EventOffset) :=
  match fileIoCreateEventMember.locate wec event o with
  | .error fault => .error (.payload fault)
  | .ok (o, false) => .ok ({}, o)
  | .ok (o, true) => (FileIoCreateEventMember.read event o).map fun fields => (fields, o)

/-- `FileIoReadWriteEventMember`. -/
structure FileIoReadWriteEventMember where
  offset : UInt64 := 0
  irpPtr : UInt64 := 0
  ttid : UInt64 := 0
  fileObject : UInt64 := 0
  fileKey : UInt64 := 0
  ioSize : UInt64 := 0
  ioFlags : UInt64 := 0
  deriving Repr, DecidableEq

/-- The copies of the constructor. -/
def FileIoReadWriteEventMember.read (event : Event) (o : EventOffset) :
    Except EventFault FileIoReadWriteEventMember := do
  let offset ← copyField event (o.fields (wide "Offset"))
  let irpPtr ← copyField event (o.fields (wide "IrpPtr"))
  let ttid ← copyField event (o.fields (wide "TTID"))
  let fileObject ← copyField event (o.fields (wide "FileObject"))
  let fileKey ← copyField event (o.fields (wide "FileKey"))
  let ioSize ← copyField event (o.fields (wide "IoSize"))
  let ioFlags ← copyField event (o.fields (wide "IoFlags"))
  return { offset, irpPtr, ttid, fileObject, fileKey, ioSize, ioFlags }

/-- The constructor, with the record that it leaves. -/
def FileIoReadWriteEventMember.construct (wec : WmiEventClass) (event : Event) (o : EventOffset) :
    Except EventFault (FileIoReadWriteEventMember × EventOffset) :=
  match fileIoReadWriteEventMember.locate wec event o with
  | .error fault => .error (.payload fault)
  | .ok (o, false) => .ok ({}, o)
  | .ok (o, true) => (FileIoReadWriteEventMember.read event o).map fun fields => (fields, o)

/-- `FileIoSimpleOpEventMember`. -/
structure FileIoSimpleOpEventMember where
  irpPtr : UInt64 := 0
  ttid : UInt64 := 0
  fileObject : UInt64 := 0
  fileKey : UInt64 := 0
  deriving Repr, DecidableEq

/-- The copies of the constructor. -/
def FileIoSimpleOpEventMember.read (event : Event) (o : EventOffset) :
    Except EventFault FileIoSimpleOpEventMember := do
  let irpPtr ← copyField event (o.fields (wide "IrpPtr"))
  let ttid ← copyField event (o.fields (wide "TTID"))
  let fileObject ← copyField event (o.fields (wide "FileObject"))
  let fileKey ← copyField event (o.fields (wide "FileKey"))
  return { irpPtr, ttid, fileObject, fileKey }

/-- The constructor, with the record that it leaves. -/
def FileIoSimpleOpEventMember.construct (wec : WmiEventClass) (event : Event) (o : EventOffset) :
    Except EventFault (FileIoSimpleOpEventMember × EventOffset) :=
  match fileIoSimpleOpEventMember.locate wec event o with
  | .error fault => .error (.payload fault)
  | .ok (o, false) => .ok ({}, o)
  | .ok (o, true) => (FileIoSimpleOpEventMember.read event o).map fun fields => (fields, o)

/-- `ProcessTypeGroup1EventMember`, with pointers as above. -/
structure ProcessTypeGroup1EventMember where
  processUniqueKey : UInt64 := 0
  pid : UInt64 := 0
  ppid : UInt64 := 0
  sessionId : UInt64 := 0
  exitStatus : UInt64 := 0
  directoryTableBase : UInt64 := 0
  imageFileName : Option Int := none
  commandLine : Option Int := none
  deriving Repr, DecidableEq

/-- A pointer to the property that is looked for in every event. -/
def lookUpPointer (wec : WmiEventClass) (event : Event) (propertyName : WString) :
    Except EventFault Int :=
  match wec.getPropertyInfo propertyName event with
  | .ok info => .ok info.1
  | .error fault => .error (.payload fault)

/-- The copies of the constructor, and the pointers. -/
def ProcessTypeGroup1EventMember.read (wec : WmiEventClass) (event : Event) (o : EventOffset) :
    Except EventFault ProcessTypeGroup1EventMember := do
  let processUniqueKey ← copyField event (o.fields (wide "UniqueProcessKey"))
  let pid ← copyField event (o.fields (wide "ProcessId"))
  let ppid ← copyField event (o.fields (wide "ParentId"))
  let sessionId ← copyField event (o.fields (wide "SessionId"))
  let exitStatus ← copyField event (o.fields (wide "ExitStatus"))
  let directoryTableBase ← copyField event (o.fields (wide "DirectoryTableBase"))
  let imageFileName ← lookUpPointer wec event (wide "ImageFileName")
  let commandLine ← lookUpPointer wec event (wide "CommandLine")
  return { processUniqueKey, pid, ppid, sessionId, exitStatus, directoryTableBase,
           imageFileName := some imageFileName, commandLine := some commandLine }

/-- The constructor, with the record that it leaves. -/
def ProcessTypeGroup1EventMember.construct (wec : WmiEventClass) (event : Event)
    (o : EventOffset) : Except EventFault (ProcessTypeGroup1EventMember × EventOffset) :=
  match processTypeGroup1EventMember.locate wec event o with
  | .error fault => .error (.payload fault)
  | .ok (o, false) => .ok ({}, o)
  | .ok (o, true) => (ProcessTypeGroup1EventMember.read wec event o).map fun fields => (fields, o)

end KernelEventsTrace.EtwService
