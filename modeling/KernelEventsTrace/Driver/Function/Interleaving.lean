import KernelEventsTrace.Driver.Function.Notices
import KernelEventsTrace.Driver.Std.MapRun

/-!
# `KernelEventsTrace.Driver.Function.Interleaving`: callbacks that run at the same time

The callbacks of `driver/function/self_defense.cpp`, over the `Map` that `kProcessMap` is. A
section under `kProcessMapMutex` is one step. `PreObCallback` and `GetProcessImageName` also use
the map outside of such a section: there `Find`, the comparison with `End()` and the access to the
entry are steps of their own, and other callbacks may run in between.

A `Point` is where a call of a callback stands, with its local variables. The debug messages of
the file callbacks are part of the model here, because they call `GetProcessImageName`.
-/

set_option autoImplicit false

namespace KernelEventsTrace.Driver.SelfDefense

open KernelEventsTrace.Driver.Std (KString WChar Fault Heap Map Iterator)

/-- The static variables, with `kProcessMap` as a `Map`. -/
structure Shared where
  processMap : Map Pid ProcessInfo
  protectedDirList : List (KString WChar)
  enableProtectFile : Bool

namespace Shared

/-- `GetProcessImageName`, called inside of a section. -/
def getProcessImageName (g : Shared) (query : Pid → ImageQuery) (pid : Pid) :
    Except Fault (KString WChar) := do
  let it ← g.processMap.find pidLess pid
  if it ≠ g.processMap.endIt then
    return (← g.processMap.node it).val.processPath.copy
  else
    return (query pid).imageName

/-- The section of `ProcessNotifyCallback` that makes the new entry. -/
def insert (g : Shared) (pid : Pid) (info : ProcessInfo) : Except Fault Shared := do
  let (_, _, processMap) ← g.processMap.insert pidLess pid info
  return { g with processMap := processMap }

/-- The section of `IsProtectedProcess`. -/
def isProtectedProcess (g : Shared) (query : Pid → ImageQuery) (pid : Pid) :
    Except Fault (Bool × Shared) := do
  let it ← g.processMap.find pidLess pid
  if it ≠ g.processMap.endIt then
    let info := (← g.processMap.node it).val
    if info.isProtected = false then
      return (isInProtectedDirectory g.protectedDirList info.processPath, g)
    else
      return (true, g)
  else
    let processPath ← g.getProcessImageName query pid
    let isProtected := isInProtectedDirectory g.protectedDirList processPath
    let g ← g.insert pid ⟨pid, processPath.copy, isProtected, 0⟩
    return (isProtected, g)

/-- The section of `ProcessNotifyCallback` that reads the entry of the creator. -/
def parentProtected (g : Shared) (currentPid : Pid) : Except Fault Bool := do
  let it ← g.processMap.find pidLess currentPid
  if it ≠ g.processMap.endIt then
    return (← g.processMap.node it).val.isProtected
  else
    return false

/-- The section of `ProcessNotifyCallback` for a termination. The path of the process is read for
the debug message. -/
def terminate (g : Shared) (pid : Pid) : Except Fault Shared := do
  let it ← g.processMap.find pidLess pid
  if it ≠ g.processMap.endIt then
    let _ ← g.processMap.node it
  let (_, processMap) ← g.processMap.erase pidLess pid
  return { g with processMap := processMap }

end Shared

/-- What a callback returns. -/
inductive Answer where
  | notified
  | file (result : PreopResult)
  | access (desiredAccess : Dword)
  deriving Repr, DecidableEq

/-- Who calls `GetProcessImageName` outside of a section. -/
inductive ImageCaller where
  /-- `ProcessNotifyCallback`, in the process `currentPid`. -/
  | creation (currentPid : Pid) (startTime : Time)
  /-- The debug message of a file callback that then gives its answer. -/
  | debugMessage (answer : Answer)
  deriving Repr, DecidableEq

/-- Where a callback stands: the next step, with the local variables it needs. -/
inductive Point where
  /-- `kProcessMap->Find(pid)` in `GetProcessImageName`. -/
  | imageFind (query : Pid → ImageQuery) (pid : Pid) (caller : ImageCaller)
  /-- `it != kProcessMap->End()` in `GetProcessImageName`. -/
  | imageTest (query : Pid → ImageQuery) (pid : Pid) (caller : ImageCaller) (it : Iterator)
  /-- `it->second.process_path`. -/
  | imageDeref (pid : Pid) (caller : ImageCaller) (it : Iterator)
  /-- The section that reads the entry of the creator. -/
  | creationParent (currentPid pid : Pid) (startTime : Time) (processPath : KString WChar)
  /-- The section that makes the new entry. -/
  | creationInsert (pid : Pid) (startTime : Time) (processPath : KString WChar)
      (isProtected : Bool)
  | termination (pid : Pid)
  | lookup (query : Pid → ImageQuery) (pid : Pid)
  | createFile (query : Pid → ImageQuery) (data : CreateRequest)
  | setInformationFile (query : Pid → ImageQuery) (data : SetInformationRequest)
  /-- The first tests of `PreObCallback`, and `IsProtectedProcess(source_pid)`. -/
  | handleSource (query : Pid → ImageQuery) (op : ObRequest)
  /-- `IsProtectedProcess(target_pid)`. -/
  | handleTarget (query : Pid → ImageQuery) (op : ObRequest)
  /-- `kProcessMap->Find(target_pid)`. -/
  | handleFind (op : ObRequest)
  /-- `it != kProcessMap->End()`. -/
  | handleTest (op : ObRequest) (it : Iterator)
  /-- `it->second.start_time`. -/
  | handleDeref (op : ObRequest) (it : Iterator)
  | done (answer : Answer)

/-- The first point of a call. -/
def Notice.start : Notice → Point
  | .creation query currentPid pid startTime =>
    .imageFind query pid (.creation currentPid startTime)
  | .termination pid => .termination pid
  | .lookup query pid => .lookup query pid
  | .createFile query data => .createFile query data
  | .setInformationFile query data => .setInformationFile query data
  | .createHandle query op => .handleSource query op

/-- How the caller of `GetProcessImageName` goes on with the path. -/
def ImageCaller.resume (g : Shared) (pid : Pid) (processPath : KString WChar) :
    ImageCaller → Point
  | .creation currentPid startTime =>
    if isInProtectedDirectory g.protectedDirList processPath = false then
      .creationParent currentPid pid startTime processPath
    else .creationInsert pid startTime processPath true
  | .debugMessage answer => .done answer

/-- A file callback returns. If it blocks the request, it writes a debug message first. -/
def Point.answerFile (query : Pid → ImageQuery) (currentPid : Pid) (result : PreopResult) :
    Point :=
  match result with
  | .complete _ => .imageFind query currentPid (.debugMessage (.file result))
  | _ => .done (.file result)

/-- The section of `IsProtectedProcess` in a file callback, with what follows it: nothing if the
process is protected or the path is not, and `result` otherwise. -/
def Shared.guardFile (g : Shared) (query : Pid → ImageQuery) (currentPid : Pid)
    (filePath : KString WChar) (result : PreopResult) : Except Fault (Shared × Point) := do
  let (isProtected, g) ← g.isProtectedProcess query currentPid
  if isProtected then
    return (g, .done (.file .successNoCallback))
  else if isInProtectedDirectory g.protectedDirList filePath = false then
    return (g, .done (.file .successNoCallback))
  else
    return (g, .answerFile query currentPid result)

/-- One step of a callback. -/
def Point.step (g : Shared) : Point → Except Fault (Shared × Point)
  | .imageFind query pid caller => do
    return (g, .imageTest query pid caller (← g.processMap.find pidLess pid))
  | .imageTest query pid caller it =>
    if it ≠ g.processMap.endIt then .ok (g, .imageDeref pid caller it)
    else .ok (g, caller.resume g pid (query pid).imageName)
  | .imageDeref pid caller it => do
    let info := (← g.processMap.node it).val
    return (g, caller.resume g pid info.processPath.copy)
  | .creationParent currentPid pid startTime processPath => do
    return (g, .creationInsert pid startTime processPath (← g.parentProtected currentPid))
  | .creationInsert pid startTime processPath isProtected => do
    let g ← g.insert pid ⟨pid, processPath.copy, isProtected, startTime⟩
    return (g, .done .notified)
  | .termination pid => do
    return (← g.terminate pid, .done .notified)
  | .lookup query pid => do
    let (_, g) ← g.isProtectedProcess query pid
    return (g, .done .notified)
  | .createFile query data =>
    if g.enableProtectFile = false ∨ data.requestorMode = .kernelMode ∨
        data.previousMode = .kernelMode then
      .ok (g, .done (.file .successNoCallback))
    else
      g.guardFile query data.currentPid data.filePath
        (checkCreate data.desiredAccess data.options)
  | .setInformationFile query data =>
    if g.enableProtectFile = false ∨ data.requestorMode = .kernelMode ∨
        data.previousMode = .kernelMode then
      .ok (g, .done (.file .successNoCallback))
    else
      g.guardFile query data.currentPid data.filePath
        (checkSetInformation g.protectedDirList data)
  | .handleSource query op =>
    if op.kernelHandle ∨ op.previousMode = .kernelMode then
      .ok (g, .done (.access op.desiredAccess))
    else if op.sourcePid = op.object.targetPid then .ok (g, .done (.access op.desiredAccess))
    else do
      let (sourceProtected, g) ← g.isProtectedProcess query op.sourcePid
      if sourceProtected then return (g, .done (.access op.desiredAccess))
      else return (g, .handleTarget query op)
  | .handleTarget query op => do
    let (targetProtected, g) ← g.isProtectedProcess query op.object.targetPid
    if !targetProtected then return (g, .done (.access op.desiredAccess))
    else return (g, .handleFind op)
  | .handleFind op => do
    return (g, .handleTest op (← g.processMap.find pidLess op.object.targetPid))
  | .handleTest op it =>
    if it ≠ g.processMap.endIt then .ok (g, .handleDeref op it)
    else .ok (g, .done (.access (restrictAccess op.object op.desiredAccess)))
  | .handleDeref op it => do
    let info := (← g.processMap.node it).val
    if op.currTime - info.startTime < 5000000#64 then
      return (g, .done (.access op.desiredAccess))
    else
      return (g, .done (.access (restrictAccess op.object op.desiredAccess)))
  | .done answer => .ok (g, .done answer)

/-! ### Schedules -/

/-- The static variables, and the calls that were made so far. -/
structure Calls where
  shared : Shared
  points : List Point

/-- What happens next: a callback is called, or one of the calls makes a step. -/
inductive Turn where
  | call (notice : Notice)
  | step (i : Nat)

namespace Calls

/-- After `DrvRegister`: `kProcessMap` is a new map, and no callback was called. -/
def registered (heap : Heap Pid ProcessInfo) (dirs : List (KString WChar))
    (enableProtectFile : Bool) : Calls where
  shared := ⟨Map.construct heap, dirs, enableProtectFile⟩
  points := []

/-- One turn. A step of a call that was not made is none. -/
def turn (s : Calls) : Turn → Except Fault Calls
  | .call notice => .ok { s with points := s.points ++ [notice.start] }
  | .step i =>
    match s.points[i]? with
    | none => .ok s
    | some point => do
      let (shared, point) ← point.step s.shared
      return { shared := shared, points := s.points.set i point }

/-- A schedule. -/
def run (s : Calls) (turns : List Turn) : Except Fault Calls := turns.foldlM turn s

end Calls

end KernelEventsTrace.Driver.SelfDefense
