import Mathlib.Logic.Function.Basic
import KernelEventsTrace.EtwService.WString

/-!
# `KernelEventsTrace.EtwService.FileIo`: file events and the paths they are reported with

`KernelConsumer::ProcessFileIoEvent` of `etw/consumer.cpp` and the class `FileNameObjMap` of
`manager/file_manager.cpp`. A Create event maps its file object to a path, unless one of the
filters drops it. A Write or Close event is reported with the path that its file object is
mapped to. Events come with their decoded fields.

`Os` holds the answers of the system and of the C library. They do not change in a run.
-/

set_option autoImplicit false

namespace KernelEventsTrace.EtwService

/-- What the system and the C library answer. -/
structure Os where
  /-- `manager::GetWin32PathCaseSensitive`. -/
  getWin32PathCaseSensitive : WString → WString
  /-- `ulti::ToLower`. -/
  toLower : WString → WString
  /-- `manager::DirExist`. -/
  dirExist : WString → Bool

/-- `manager::GetWin32Path`. -/
def Os.getWin32Path (os : Os) (path : WString) : WString :=
  os.toLower (os.getWin32PathCaseSensitive path)

/-! ### `FileNameObjMap` -/

/-- The content of `obj_to_name_map_`. -/
abbrev FileNameObjMap := UInt64 → Option WString

namespace FileNameObjMap

/-- The initial content: the object 0 has the empty path. -/
def initial : FileNameObjMap := Function.update (fun _ => none) 0 (some [])

/-- `MapObjectWithPath`. -/
def mapObjectWithPath (m : FileNameObjMap) (fileObject : UInt64) (filePath : WString) :
    FileNameObjMap :=
  if fileObject = 0 then m else Function.update m fileObject (some filePath)

/-- `obj_to_name_map_[fileObject]`, which inserts the empty string for an absent object. -/
def index (m : FileNameObjMap) (fileObject : UInt64) : WString × FileNameObjMap :=
  match m fileObject with
  | some filePath => (filePath, m)
  | none => ([], Function.update m fileObject (some []))

/-- `GetPathByObject`. An object without a path gets that of object 0. -/
def getPathByObject (m : FileNameObjMap) (fileObject : UInt64) : WString × FileNameObjMap :=
  match m fileObject with
  | some filePath => (filePath, m)
  | none => m.index 0

end FileNameObjMap

/-! ### Events -/

/-- The fields of a Create event that are read. -/
structure FileIoCreateEvent where
  fileObject : UInt64
  createOptions : UInt64
  openPath : WString
  deriving Repr, DecidableEq

/-- The fields of a Write event that are read. -/
structure FileIoWriteEvent where
  fileObject : UInt64
  fileKey : UInt64
  offset : UInt64
  ioSize : UInt64
  deriving Repr, DecidableEq

/-- The fields of a Close event that are read. -/
structure FileIoCloseEvent where
  fileObject : UInt64
  fileKey : UInt64
  deriving Repr, DecidableEq

/-- A file event with the process it names. -/
inductive FileIoEvent where
  | create (processId : UInt64) (fields : FileIoCreateEvent)
  | write (processId : UInt64) (fields : FileIoWriteEvent)
  | close (processId : UInt64) (fields : FileIoCloseEvent)
  /-- An event of another type. Its branch is empty, or returns at once. -/
  | ignored (type : Nat)
  deriving Repr, DecidableEq

/-- What is printed for an event, besides its time. -/
inductive Report where
  | create (processId : UInt64) (filePath : WString) (fileObject : UInt64) (createOptions : UInt32)
  | write (pid : UInt32) (filePath : WString) (fields : FileIoWriteEvent)
  | close (pid : UInt32) (filePath : WString) (fields : FileIoCloseEvent)
  deriving Repr, DecidableEq

/-- The maps that outlive an event. -/
structure Maps where
  /-- `manager::kFileNameObjMap`. -/
  fileNameObjMap : FileNameObjMap
  /-- `file_rename_map_`: the old and the new path and the process, by file key. -/
  fileRenameMap : UInt64 → Option ((WString × WString) × UInt64)

/-- The maps at the start. -/
def Maps.initial : Maps := ⟨FileNameObjMap.initial, fun _ => none⟩

/-- The option of a directory. -/
def FILE_DIRECTORY_FILE : UInt32 := 0x1

/-- The low 24 bits of the options word of a Create event. -/
def FileIoCreateEvent.options (e : FileIoCreateEvent) : UInt32 :=
  (e.createOptions &&& 0x00FFFFFF).toUInt32

/-- The Create event is dropped: its path is not one of the watched paths, or it opens a
directory. -/
def isDropped (os : Os) (e : FileIoCreateEvent) : Bool :=
  let win32FilePath := os.getWin32Path e.openPath
  if WString.find win32FilePath (os.toLower (wide "NapierOne-tiny")) = none then true
  else if e.options &&& FILE_DIRECTORY_FILE ≠ 0 then true
  else if os.dirExist win32FilePath then true
  else false

/-- The branch of `ProcessFileIoEvent` for Create events. -/
def processCreate (os : Os) (m : Maps) (processId : UInt64) (e : FileIoCreateEvent) :
    Maps × Option Report :=
  let win32FilePath := os.getWin32Path e.openPath
  if isDropped os e then (m, none)
  else
    ({ m with fileNameObjMap := m.fileNameObjMap.mapObjectWithPath e.fileObject win32FilePath },
      some (.create processId win32FilePath e.fileObject e.options))

/-- The branch for Write events. Those of process 4 are printed without a path. -/
def processWrite (m : Maps) (processId : UInt64) (e : FileIoWriteEvent) : Maps × Option Report :=
  let pid := processId.toUInt32
  if pid = 4 then (m, some (.write pid [] e))
  else
    let (filePath, objMap) := m.fileNameObjMap.getPathByObject e.fileObject
    ({ m with fileNameObjMap := objMap },
      if filePath.isEmpty then none else some (.write pid filePath e))

/-- The branch for Close events. The file object stays in the map. -/
def processClose (m : Maps) (processId : UInt64) (e : FileIoCloseEvent) : Maps × Option Report :=
  let pid := processId.toUInt32
  let (filePath, objMap) := m.fileNameObjMap.getPathByObject e.fileObject
  ({ fileNameObjMap := objMap,
     fileRenameMap := Function.update m.fileRenameMap e.fileKey none },
    if filePath.isEmpty then none else some (.close pid filePath e))

/-- `ProcessFileIoEvent`. -/
def processFileIoEvent (os : Os) (m : Maps) : FileIoEvent → Maps × Option Report
  | .create processId fields => processCreate os m processId fields
  | .write processId fields => processWrite m processId fields
  | .close processId fields => processClose m processId fields
  | .ignored _ => (m, none)

/-- The maps after a sequence of events. -/
def processFileIoEvents (os : Os) (m : Maps) (events : List FileIoEvent) : Maps :=
  events.foldl (fun m event => (processFileIoEvent os m event).1) m

end KernelEventsTrace.EtwService
