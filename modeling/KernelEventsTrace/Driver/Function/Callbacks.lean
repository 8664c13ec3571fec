import KernelEventsTrace.Driver.Function.Interleaving
import KernelEventsTrace.Lib.AtomicSections
import KernelEventsTrace.Lib.LockOrder

/-!
# `KernelEventsTrace.Driver.Function.Callbacks`: the callbacks with their mutexes

The callbacks of `driver/function/self_defense.cpp` once more, with every `Lock` and `Unlock` and
every operation on the static variables as an action of its own. `kDirMutex` is locked inside of
the sections of `kProcessMapMutex` and also on its own. `kProtectedDirList` and
`kEnableProtectFile` are set before a callback is registered, and no callback writes them.

An operation of `kProcessMap` is one action, also outside of a section. So are the system calls
that look an image path up, but for `ObOpenObjectByPointer`. It asks for a handle that is not a
kernel handle, so `PreObCallback` is called again in the same thread. `Images` says what a lookup
calls there. `Notice.callback` leaves these calls out, `Notice.nested` has them.
-/

set_option autoImplicit false

namespace KernelEventsTrace.Driver.SelfDefense

open Locking (guarded op)
open KernelEventsTrace.Driver.Std (KString WChar Fault Heap Map Iterator)

/-- The mutexes of the file. -/
inductive StaticMutex where
  | processMapMutex
  | dirMutex
  deriving Repr, DecidableEq

/-- There are two of them. -/
instance : Fintype StaticMutex where
  elems := {.processMapMutex, .dirMutex}
  complete m := by cases m <;> decide

/-- An operation on the static variables. -/
inductive Access where
  /-- `kEnableProtectFile`. -/
  | enableProtectFile
  /-- The loop over `kProtectedDirList`. -/
  | protects (path : KString WChar)
  | find (pid : Pid)
  /-- `it != kProcessMap->End()`. -/
  | isEntry (it : Iterator)
  /-- `it->second`. -/
  | entry (it : Iterator)
  | insert (pid : Pid) (info : ProcessInfo)
  | erase (pid : Pid)
  deriving Repr, DecidableEq

namespace Access

/-- The type of the result. -/
def Result : Access → Type
  | enableProtectFile | protects _ | isEntry _ => Bool
  | find _ => Iterator
  | entry _ => ProcessInfo
  | insert .. | erase _ => Unit

/-- The operation on the map. -/
def exec (dirs : List (KString WChar)) (enable : Bool) : (access : Access) →
    Map Pid ProcessInfo → Except Fault (access.Result × Map Pid ProcessInfo)
  | enableProtectFile, m => .ok (enable, m)
  | protects path, m => .ok (isInProtectedDirectory dirs path, m)
  | find pid, m => do return (← m.find pidLess pid, m)
  | isEntry it, m => .ok (decide (it ≠ m.endIt), m)
  | entry it, m => do return ((← m.node it).val, m)
  | insert pid info, m => do
    let (_, _, m) ← m.insert pidLess pid info
    return ((), m)
  | erase pid, m => do
    let (_, m) ← m.erase pidLess pid
    return ((), m)

/-- The operation changes the map. -/
def writes : Access → Bool
  | insert .. | erase _ => true
  | _ => false

/-- The result of an operation on what no callback writes. -/
def constant (dirs : List (KString WChar)) (enable : Bool) :
    (access : Access) → Option access.Result
  | enableProtectFile => some enable
  | protects path => some (isInProtectedDirectory dirs path)
  | _ => none

end Access

/-- A callback, as its actions. -/
abbrev Callback := Locking StaticMutex Access.Result

namespace Callback

/-- The flag is read. -/
def enableProtectFile : Callback Bool := op Access.enableProtectFile

/-- A path is compared with the protected directories. -/
def protects (path : KString WChar) : Callback Bool := op (Access.protects path)

/-- `kProcessMap->Find`. -/
def find (pid : Pid) : Callback Iterator := op (Access.find pid)

/-- `it != kProcessMap->End()`. -/
def isEntry (it : Iterator) : Callback Bool := op (Access.isEntry it)

/-- `it->second`. -/
def entry (it : Iterator) : Callback ProcessInfo := op (Access.entry it)

/-- `kProcessMap->Insert`. -/
def insert (pid : Pid) (info : ProcessInfo) : Callback Unit := op (Access.insert pid info)

/-- `kProcessMap->Erase`. -/
def erase (pid : Pid) : Callback Unit := op (Access.erase pid)

/-- `IsInProtectedDirectory`. -/
def isInProtectedDirectory (path : KString WChar) : Callback Bool :=
  guarded .dirMutex (protects path)

end Callback

/-- The answers to the lookups of image paths, and what is called while a process is opened. -/
structure Images where
  query : Pid → ImageQuery
  opening : Pid → Callback Unit

/-- Nothing is called while a process is opened. -/
def Images.Quiet (images : Images) : Prop := ∀ pid, images.opening pid = .done ()

/-- The lookups alone, without calls from within. -/
def Images.of (query : Pid → ImageQuery) : Images := ⟨query, fun _ => .done ()⟩

/-- A query stands for its lookups. -/
instance : Coe (Pid → ImageQuery) Images := ⟨Images.of⟩

namespace Callback

/-- `GetProcessImageName` behind `Find`. -/
def imageName (images : Images) (pid : Pid) (it : Iterator) :
    Callback (KString WChar) := do
  if ← isEntry it then return (← entry it).processPath.copy
  else do
    images.opening pid
    return (images.query pid).imageName

/-- `GetProcessImageName`. It locks nothing. -/
def getProcessImageName (images : Images) (pid : Pid) : Callback (KString WChar) := do
  imageName images pid (← find pid)

/-- The section of `IsProtectedProcess`. -/
def lookup (images : Images) (pid : Pid) : Callback Bool := do
  let it ← find pid
  if ← isEntry it then
    if (← entry it).isProtected = false then isInProtectedDirectory (← entry it).processPath
    else return true
  else
    let processPath ← getProcessImageName images pid
    let isProtected ← isInProtectedDirectory processPath
    insert pid ⟨pid, processPath.copy, isProtected, 0⟩
    return isProtected

/-- `IsProtectedProcess`. -/
def isProtectedProcess (images : Images) (pid : Pid) : Callback Bool :=
  guarded .processMapMutex (lookup images pid)

/-! ### `ProcessNotifyCallback` -/

/-- The section that reads the entry of the creator. -/
def parentProtected (currentPid : Pid) : Callback Bool := do
  let it ← find currentPid
  if ← isEntry it then return (← entry it).isProtected
  else return false

/-- The section that makes the new entry. -/
def notifyProtected (pid : Pid) (startTime : Time) (processPath : KString WChar)
    (isProtected : Bool) : Callback Answer := do
  guarded .processMapMutex (insert pid ⟨pid, processPath.copy, isProtected, startTime⟩)
  return .notified

/-- A creation, behind `GetProcessImageName`. -/
def notifyPath (currentPid pid : Pid) (startTime : Time) (processPath : KString WChar) :
    Callback Answer := do
  if (← isInProtectedDirectory processPath) = false then
    let isProtected ← guarded .processMapMutex (parentProtected currentPid)
    notifyProtected pid startTime processPath isProtected
  else notifyProtected pid startTime processPath true

/-- `ProcessNotifyCallback` with a `create_info`. -/
def notifyCreation (images : Images) (currentPid pid : Pid) (startTime : Time) :
    Callback Answer := do
  notifyPath currentPid pid startTime (← getProcessImageName images pid)

/-- The section for a termination. The path is read for the debug message. -/
def terminate (pid : Pid) : Callback Unit := do
  let it ← find pid
  if ← isEntry it then
    let _ ← entry it
    erase pid
  else erase pid

/-- `ProcessNotifyCallback` without a `create_info`. -/
def notifyTermination (pid : Pid) : Callback Answer := do
  guarded .processMapMutex (terminate pid)
  return .notified

/-! ### File callbacks -/

/-- A file callback returns, behind the debug message for a blocked request. -/
def answerFile (images : Images) (currentPid : Pid) (result : PreopResult) :
    Callback Answer :=
  match result with
  | .complete _ => do
    let _ ← getProcessImageName images currentPid
    return .file result
  | _ => return .file result

/-- The tests of the process and of the path, in front of `check`. -/
def guardFile (images : Images) (currentPid : Pid) (filePath : KString WChar)
    (check : Callback Answer) : Callback Answer := do
  if ← isProtectedProcess images currentPid then return .file .successNoCallback
  else if (← isInProtectedDirectory filePath) = false then return .file .successNoCallback
  else check

/-- `PreCreateFile`. -/
def preCreateFile (images : Images) (data : CreateRequest) : Callback Answer := do
  if (← enableProtectFile) = false then return .file .successNoCallback
  else if data.requestorMode = .kernelMode then return .file .successNoCallback
  else if data.previousMode = .kernelMode then return .file .successNoCallback
  else
    guardFile images data.currentPid data.filePath
      (answerFile images data.currentPid (checkCreate data.desiredAccess data.options))

/-- `PreSetInformationFile` behind the tests of the process and of the path. -/
def checkSetInformation (images : Images) (data : SetInformationRequest) :
    Callback Answer :=
  if data.fileInformationClass = .fileAllocationInformation ∨
      data.fileInformationClass = .fileDispositionInformation ∨
      data.fileInformationClass = .fileEndOfFileInformation ∨
      data.fileInformationClass = .fileShortNameInformation then
    answerFile images data.currentPid (.complete statusAccessDenied)
  else if data.fileInformationClass = .fileLinkInformation ∨
      data.fileInformationClass = .fileRenameInformation then
    match data.destination with
    | some name => do
      if ← isInProtectedDirectory (.of name) then
        answerFile images data.currentPid (.complete statusAccessDenied)
      else return .file .successNoCallback
    | none => return .file .releaseUnset
  else return .file .successNoCallback

/-- `PreSetInformationFile`. -/
def preSetInformationFile (images : Images) (data : SetInformationRequest) :
    Callback Answer := do
  if (← enableProtectFile) = false then return .file .successNoCallback
  else if data.requestorMode = .kernelMode then return .file .successNoCallback
  else if data.previousMode = .kernelMode then return .file .successNoCallback
  else guardFile images data.currentPid data.filePath (checkSetInformation images data)

/-! ### `PreObCallback` -/

/-- Behind `Find`. It locks nothing. -/
def checkStart (op : ObRequest) (it : Iterator) : Callback Answer := do
  if ← isEntry it then
    if op.currTime - (← entry it).startTime < 5000000#64 then return .access op.desiredAccess
    else return .access (restrictAccess op.object op.desiredAccess)
  else return .access (restrictAccess op.object op.desiredAccess)

/-- Behind `IsProtectedProcess(source_pid)`. -/
def checkTarget (images : Images) (op : ObRequest) : Callback Answer := do
  if ← isProtectedProcess images op.object.targetPid then
    checkStart op (← find op.object.targetPid)
  else return .access op.desiredAccess

/-- `PreObCallback`. -/
def preObCallback (images : Images) (op : ObRequest) : Callback Answer := do
  if op.kernelHandle ∨ op.previousMode = .kernelMode then return .access op.desiredAccess
  else if op.sourcePid = op.object.targetPid then return .access op.desiredAccess
  else if ← isProtectedProcess images op.sourcePid then return .access op.desiredAccess
  else checkTarget images op

end Callback

/-- The callback that is called, by what a lookup does with the answers. -/
def Notice.callbackWith (images : (Pid → ImageQuery) → Images) : Notice → Callback Answer
  | .creation query currentPid pid startTime =>
    .notifyCreation (images query) currentPid pid startTime
  | .termination pid => .notifyTermination pid
  | .lookup query pid => do
    let _ ← Callback.isProtectedProcess (images query) pid
    return .notified
  | .createFile query data => .preCreateFile (images query) data
  | .setInformationFile query data => .preSetInformationFile (images query) data
  | .createHandle query op => .preObCallback (images query) op

/-- The callback, without the calls of `PreObCallback` from within. In a schedule such a call can
stand as one of its own, which runs while the outer one does not. -/
def Notice.callback : Notice → Callback Answer := Notice.callbackWith .of

/-! ### Calls from within -/

/-- `GetProcessImageName` gets to `ObOpenObjectByPointer`. -/
def ImageQuery.opens (q : ImageQuery) : Bool := q.found && q.located.isNone && q.resolved

/-- The answers to the lookups of a callback. -/
def Notice.query? : Notice → Option (Pid → ImageQuery)
  | .creation query .. | .lookup query _ | .createFile query _ | .setInformationFile query _
  | .createHandle query _ => some query
  | .termination _ => none

/-- The thread in which a callback runs. -/
structure Thread where
  currentPid : Pid
  previousMode : Mode
  currTime : Time
  deriving Repr, DecidableEq

/-- What `ObOpenObjectByPointer` asks for: no rights, and no `OBJ_KERNEL_HANDLE`. -/
def Thread.openRequest (thread : Thread) (pid : Pid) : ObRequest where
  kernelHandle := false
  previousMode := thread.previousMode
  sourcePid := thread.currentPid
  object := .process pid
  desiredAccess := 0
  currTime := thread.currTime

/-- The lookups of a thread, with calls from within up to the depth `n`. -/
def Images.nested (thread : Thread) : ℕ → (Pid → ImageQuery) → Images
  | 0, query => .of query
  | n + 1, query => ⟨query, fun pid =>
    if (query pid).opens then do
      let _ ← Callback.preObCallback (Images.nested thread n query) (thread.openRequest pid)
      return ()
    else .done ()⟩

/-- The callback, with the calls from within. -/
def Notice.nested (n : ℕ) (thread : Thread) : Notice → Callback Answer :=
  Notice.callbackWith (Images.nested thread n)

/-! ### Schedules -/

/-- The calls of callbacks that run at the same time. -/
abbrev Threads := ThreadPool StaticMutex Access.Result (Map Pid ProcessInfo) Answer

namespace Threads

/-- After `DrvRegister`: `kProcessMap` is a new map, no mutex is locked, no callback was called. -/
def registered (heap : Heap Pid ProcessInfo) : Threads := ⟨Map.construct heap, fun _ => none, []⟩

/-- A schedule of single actions. -/
def run (dirs : List (KString WChar)) (enable : Bool) (s : Threads) (moves : List (Move Notice)) :
    Except Fault Threads :=
  ThreadPool.run (Access.exec dirs enable) Notice.callback s moves

/-- A schedule of callbacks with the calls from within. -/
def runNested (n : ℕ) (dirs : List (KString WChar)) (enable : Bool) (s : Threads)
    (moves : List (Move (Thread × Notice))) : Except Fault Threads :=
  ThreadPool.run (Access.exec dirs enable) (fun c => c.2.nested n c.1) s moves

end Threads

/-- The callbacks that are called. -/
def Turn.called : Turn → Option Notice
  | .call notice => some notice
  | .step _ => none

end KernelEventsTrace.Driver.SelfDefense
