import Mathlib.Logic.Function.Basic
import KernelEventsTrace.Driver.Std.KString

/-!
# `KernelEventsTrace.Driver.Function.SelfDefense`: the callbacks that guard files and processes

The functions of `driver/function/self_defense.cpp`. The static variables are one record,
`Globals`, that a callback takes and returns. What the kernel answers is an argument: an
`ImageQuery` holds the answers to one lookup of an image path, and a request record holds
the fields of the callback data and of the calling thread that the callback reads.

`kProcessMap` is the partial function that its finite map stands for. `Insert` keeps an
existing entry.

The callbacks run one at a time. The mutexes are left out, and so are the debug messages.
-/

set_option autoImplicit false

namespace KernelEventsTrace.Driver.SelfDefense

open KernelEventsTrace.Driver.Std (KString WChar)

/-- A process identifier (`HANDLE`). -/
abbrev Pid := Nat

/-- A system time in units of 100 ns, and the difference of two (`ULONG64`). -/
abbrev Time := BitVec 64

/-- `DWORD`. -/
abbrev Dword := BitVec 32

/-! ### Process information -/

/-- `ProcessInfo`. -/
structure ProcessInfo where
  pid : Pid
  processPath : KString WChar
  isProtected : Bool
  startTime : Time
  deriving Repr, DecidableEq

/-- The default member initializers of `ProcessInfo`. -/
instance : Inhabited ProcessInfo := ⟨⟨0, .null, false, 0⟩⟩

/-- The order of `HANDLE`. -/
def pidLess (a b : Pid) : Bool := decide (a < b)

/-- The content of `kProcessMap`. -/
abbrev ProcessMap := Pid → Option ProcessInfo

/-- `kProcessMap->Insert(pid, info)`. -/
def ProcessMap.insert (m : ProcessMap) (pid : Pid) (info : ProcessInfo) : ProcessMap :=
  match m pid with
  | some _ => m
  | none => Function.update m pid (some info)

/-- `kProcessMap->Erase(pid)`. -/
def ProcessMap.erase (m : ProcessMap) (pid : Pid) : ProcessMap := Function.update m pid none

/-- The static variables. -/
structure Globals where
  processMap : ProcessMap
  protectedDirList : List (KString WChar)
  enableProtectFile : Bool

/-- `IsInProtectedDirectory`: some directory of the list is a prefix of the path. -/
def isInProtectedDirectory (protectedDirList : List (KString WChar)) (path : KString WChar) :
    Bool :=
  match protectedDirList with
  | [] => false
  | dir :: dirs => if dir.isPrefixOf path then true else isInProtectedDirectory dirs path

/-- The answers of the kernel to a lookup of the image path of a process. -/
structure ImageQuery where
  /-- `PsLookupProcessByProcessId` succeeds. -/
  found : Bool
  /-- `SeLocateProcessImageName`. -/
  located : Option (List WChar)
  /-- `ZwQueryInformationProcess` was resolved. -/
  resolved : Bool
  /-- `ObOpenObjectByPointer` succeeds. -/
  opened : Bool
  /-- The first `ZwQueryInformationProcess` returns `STATUS_INFO_LENGTH_MISMATCH`. -/
  mismatch : Bool
  /-- The buffer is allocated. -/
  allocated : Bool
  /-- The name in the buffer after the second `ZwQueryInformationProcess`, whose status is not
  checked. -/
  queried : List WChar
  deriving Repr, DecidableEq

/-- `GetProcessImageName` when the process has no entry in `kProcessMap`. -/
def ImageQuery.imageName (q : ImageQuery) : KString WChar :=
  if !q.found then .null
  else
    match q.located with
    | some name => .of name
    | none =>
      if !q.resolved then .null
      else if !q.opened then .null
      else if !q.mismatch then .null
      else if !q.allocated then .null
      else .of q.queried

/-- `GetProcessImageName`. -/
def getProcessImageName (query : Pid → ImageQuery) (g : Globals) (pid : Pid) : KString WChar :=
  match g.processMap pid with
  | some it => it.processPath.copy
  | none => (query pid).imageName

/-- `IsProtectedProcess`. Unless the process has an entry, one is inserted. -/
def isProtectedProcess (query : Pid → ImageQuery) (g : Globals) (pid : Pid) : Bool × Globals :=
  match g.processMap pid with
  | some it =>
    if it.isProtected = false then (isInProtectedDirectory g.protectedDirList it.processPath, g)
    else (true, g)
  | none =>
    let processPath := getProcessImageName query g pid
    let isProtected := isInProtectedDirectory g.protectedDirList processPath
    (isProtected, { g with
      processMap := g.processMap.insert pid ⟨pid, processPath.copy, isProtected, 0⟩ })

/-! ### Process creation and termination -/

/-- The entry of the creator is marked as protected. -/
def parentProtected (g : Globals) (currentPid : Pid) : Bool :=
  match g.processMap currentPid with
  | some it => it.isProtected
  | none => false

/-- `ProcessNotifyCallback` with a `create_info`. It runs in the process `currentPid` that
creates the process `pid`. -/
def notifyCreation (query : Pid → ImageQuery) (g : Globals) (currentPid pid : Pid)
    (startTime : Time) : Globals :=
  let processPath := getProcessImageName query g pid
  let isProtected :=
    if isInProtectedDirectory g.protectedDirList processPath = false then
      parentProtected g currentPid
    else true
  { g with processMap := g.processMap.insert pid ⟨pid, processPath.copy, isProtected, startTime⟩ }

/-- `ProcessNotifyCallback` without a `create_info`. -/
def notifyTermination (g : Globals) (pid : Pid) : Globals :=
  { g with processMap := g.processMap.erase pid }

/-! ### File callbacks -/

/-- `KPROCESSOR_MODE`. -/
inductive Mode where
  | kernelMode
  | userMode
  deriving Repr, DecidableEq

/-- `STATUS_ACCESS_DENIED`. -/
def statusAccessDenied : Dword := 0xC0000022#32

/-- The result of a file callback. -/
inductive PreopResult where
  /-- `FLT_PREOP_SUCCESS_NO_CALLBACK`. -/
  | successNoCallback
  /-- `FLT_PREOP_COMPLETE` with `data->IoStatus.Status`. -/
  | complete (status : Dword)
  /-- `FltReleaseFileNameInformation` is called on a pointer that was never written. -/
  | releaseUnset
  deriving Repr, DecidableEq

/-- `FlagOn`. -/
def flagOn {w : Nat} (flags mask : BitVec w) : Bool := flags &&& mask ≠ 0#w

def FILE_WRITE_DATA : Dword := 0x2#32
def FILE_APPEND_DATA : Dword := 0x4#32
def FILE_DELETE_ON_CLOSE : Dword := 0x1000#32

/-- The create disposition that opens an existing file and does nothing else. -/
def FILE_OPEN : BitVec 8 := 1#8

/-- What `PreCreateFile` reads of a create request. -/
structure CreateRequest where
  requestorMode : Mode
  previousMode : Mode
  currentPid : Pid
  /-- The result of `flt::GetFileFullPathName`. -/
  filePath : KString WChar
  desiredAccess : Dword
  options : Dword
  deriving Repr, DecidableEq

/-- `PreCreateFile` after the checks of the requestor and the path. -/
def checkCreate (desiredAccess options : Dword) : PreopResult :=
  let createDisposition : BitVec 8 := (options >>> 24).setWidth 8
  let createOptions := options &&& 0x00FFFFFF#32
  if flagOn createOptions FILE_DELETE_ON_CLOSE || !flagOn createDisposition FILE_OPEN ||
      flagOn desiredAccess FILE_WRITE_DATA || flagOn desiredAccess FILE_APPEND_DATA then
    .complete statusAccessDenied
  else .successNoCallback

/-- `PreCreateFile`. -/
def preCreateFile (query : Pid → ImageQuery) (g : Globals) (data : CreateRequest) :
    PreopResult × Globals :=
  if g.enableProtectFile = false then (.successNoCallback, g)
  else if data.requestorMode = .kernelMode then (.successNoCallback, g)
  else if data.previousMode = .kernelMode then (.successNoCallback, g)
  else
    let (isProtected, g) := isProtectedProcess query g data.currentPid
    if isProtected then (.successNoCallback, g)
    else if isInProtectedDirectory g.protectedDirList data.filePath = false then
      (.successNoCallback, g)
    else (checkCreate data.desiredAccess data.options, g)

/-- `FILE_INFORMATION_CLASS`, as far as the callback tells the classes apart. -/
inductive FileInformationClass where
  | fileAllocationInformation
  | fileDispositionInformation
  | fileEndOfFileInformation
  | fileShortNameInformation
  | fileLinkInformation
  | fileRenameInformation
  | other (value : Nat)
  deriving Repr, DecidableEq

/-- What `PreSetInformationFile` reads of a request. -/
structure SetInformationRequest where
  requestorMode : Mode
  previousMode : Mode
  currentPid : Pid
  /-- The result of `flt::GetFileFullPathName`. -/
  filePath : KString WChar
  fileInformationClass : FileInformationClass
  /-- The result of `FltGetDestinationFileNameInformation`, if it succeeds. -/
  destination : Option (List WChar)
  deriving Repr, DecidableEq

/-- `PreSetInformationFile` after the checks of the requestor and the path. -/
def checkSetInformation (protectedDirList : List (KString WChar)) (data : SetInformationRequest) :
    PreopResult :=
  if data.fileInformationClass = .fileAllocationInformation ∨
      data.fileInformationClass = .fileDispositionInformation ∨
      data.fileInformationClass = .fileEndOfFileInformation ∨
      data.fileInformationClass = .fileShortNameInformation then
    .complete statusAccessDenied
  else if data.fileInformationClass = .fileLinkInformation ∨
      data.fileInformationClass = .fileRenameInformation then
    match data.destination with
    | some name =>
      if isInProtectedDirectory protectedDirList (.of name) then .complete statusAccessDenied
      else .successNoCallback
    -- `name_info` was not written, and is released all the same.
    | none => .releaseUnset
  else .successNoCallback

/-- `PreSetInformationFile`. -/
def preSetInformationFile (query : Pid → ImageQuery) (g : Globals) (data : SetInformationRequest) :
    PreopResult × Globals :=
  if g.enableProtectFile = false then (.successNoCallback, g)
  else if data.requestorMode = .kernelMode then (.successNoCallback, g)
  else if data.previousMode = .kernelMode then (.successNoCallback, g)
  else
    let (isProtected, g) := isProtectedProcess query g data.currentPid
    if isProtected then (.successNoCallback, g)
    else if isInProtectedDirectory g.protectedDirList data.filePath = false then
      (.successNoCallback, g)
    else (checkSetInformation g.protectedDirList data, g)

/-! ### Handle callback -/

def PROCESS_TERMINATE : Dword := 0x0001#32
def PROCESS_CREATE_THREAD : Dword := 0x0002#32
def PROCESS_SET_SESSIONID : Dword := 0x0004#32
def PROCESS_VM_OPERATION : Dword := 0x0008#32
def PROCESS_VM_WRITE : Dword := 0x0020#32
def PROCESS_SET_INFORMATION : Dword := 0x0200#32
def DELETE : Dword := 0x00010000#32
def WRITE_DAC : Dword := 0x00040000#32
def WRITE_OWNER : Dword := 0x00080000#32

def THREAD_TERMINATE : Dword := 0x0001#32
def THREAD_SUSPEND_RESUME : Dword := 0x0002#32
def THREAD_SET_CONTEXT : Dword := 0x0010#32
def THREAD_SET_INFORMATION : Dword := 0x0020#32
def THREAD_SET_THREAD_TOKEN : Dword := 0x0080#32
def THREAD_IMPERSONATE : Dword := 0x0100#32
def THREAD_DIRECT_IMPERSONATION : Dword := 0x0200#32

/-- The rights that are taken from a process handle, in the order of the source. -/
def blockedProcessRights : List Dword :=
  [PROCESS_TERMINATE, PROCESS_CREATE_THREAD, PROCESS_SET_SESSIONID, PROCESS_VM_OPERATION,
    PROCESS_VM_WRITE, PROCESS_SET_INFORMATION, DELETE, WRITE_DAC, WRITE_OWNER]

/-- The rights that are taken from a thread handle. -/
def blockedThreadRights : Dword :=
  THREAD_DIRECT_IMPERSONATION ||| THREAD_IMPERSONATE ||| THREAD_SET_CONTEXT |||
    THREAD_SET_INFORMATION ||| THREAD_SET_THREAD_TOKEN ||| THREAD_SUSPEND_RESUME |||
    THREAD_TERMINATE ||| WRITE_DAC ||| WRITE_OWNER

/-- `if (desired_access & right) desired_access &= ~right`. -/
def clearRight (desiredAccess right : Dword) : Dword :=
  if desiredAccess &&& right ≠ 0#32 then desiredAccess &&& ~~~right else desiredAccess

/-- The object that a handle is created for. -/
inductive ObObject where
  | process (pid : Pid)
  /-- A thread of the process `pid`. -/
  | thread (pid : Pid)
  | other
  deriving Repr, DecidableEq

/-- `target_pid`. -/
def ObObject.targetPid : ObObject → Pid
  | .process pid => pid
  | .thread pid => pid
  | .other => 0

/-- What `PreObCallback` reads of a request for a handle. -/
structure ObRequest where
  kernelHandle : Bool
  previousMode : Mode
  sourcePid : Pid
  object : ObObject
  desiredAccess : Dword
  currTime : Time
  deriving Repr, DecidableEq

/-- The rights that the last part of `PreObCallback` leaves. -/
def restrictAccess (object : ObObject) (desiredAccess : Dword) : Dword :=
  match object with
  | .process _ => blockedProcessRights.foldl clearRight desiredAccess
  | .thread _ => desiredAccess &&& ~~~blockedThreadRights
  | .other => desiredAccess

/-- The target has an entry in `kProcessMap` with a start less than 0.5 s ago. -/
def startedRecently (g : Globals) (targetPid : Pid) (currTime : Time) : Bool :=
  match g.processMap targetPid with
  | some it => currTime - it.startTime < 5000000#64
  | none => false

/-- `PreObCallback`. Returns the `DesiredAccess` that it leaves. -/
def preObCallback (query : Pid → ImageQuery) (g : Globals) (op : ObRequest) : Dword × Globals :=
  if op.kernelHandle ∨ op.previousMode = .kernelMode then (op.desiredAccess, g)
  else if op.sourcePid = op.object.targetPid then (op.desiredAccess, g)
  else
    let (sourceProtected, g) := isProtectedProcess query g op.sourcePid
    if sourceProtected then (op.desiredAccess, g)
    else
      let (targetProtected, g) := isProtectedProcess query g op.object.targetPid
      if !targetProtected then (op.desiredAccess, g)
      else if startedRecently g op.object.targetPid op.currTime then (op.desiredAccess, g)
      else (restrictAccess op.object op.desiredAccess, g)

end KernelEventsTrace.Driver.SelfDefense
