import KernelEventsTrace.EtwService.WString
import KernelEventsTrace.Lib.References

/-!
# `KernelEventsTrace.EtwService.ExecCommand`: running a command and reading its output

`ExecCommand`, `KillProcess`, `IsRunningAsSystem` and `GetCurrentSessionId` of `ulti/support.cpp`,
with every handle, token and buffer that they get from the system. The system is given by its
answers.

The blocks of a `defer` run at the end of their scope, the last one first, also when the scope is
left early or by an exception. A scope with a `defer` is a definition here, with what it defers
behind its body.
-/

set_option autoImplicit false

namespace KernelEventsTrace.EtwService.Ulti

open Holding (acquire)

/-- What is to be given back to the system. -/
inductive Handle where
  | stdoutRead | stdoutWrite
  | process | thread
  /-- The process that `KillProcess` opens. -/
  | opened
  | token | tokenUser | systemSid
  | sessionInfo | connectState
  | impersonationToken | linkedToken | userToken | userName
  /-- The thread acts as the user. -/
  | impersonation
  deriving Repr, DecidableEq

/-- What can go wrong with a handle. -/
inductive ExecFault where
  /-- What is closed or freed is not held. -/
  | notHeld
  /-- The pointer was never written. -/
  | uninitialized
  deriving Repr, DecidableEq

/-- The answers of the system to the calls of `IsRunningAsSystem`. -/
structure TokenAnswers where
  openProcessToken : Bool
  malloc : Bool
  getTokenInformation : Bool
  allocateAndInitializeSid : Bool
  equalSid : Bool
  deriving Repr

/-- The answers of the system to the calls of one `ExecCommand`. -/
structure ExecAnswers where
  createPipe : Bool
  createProcess : Bool
  token : TokenAnswers
  /-- The sessions by their ids, and whether they are active. `none` if they cannot be
  enumerated. -/
  sessions : Option (List (UInt32 × Bool))
  /-- Whether the session is active, or `none` if it cannot be queried. -/
  connectState : Option Bool
  queryUserToken : Bool
  getTokenInformation : Bool
  duplicateToken : Bool
  queryUserName : Bool
  impersonateLoggedOnUser : Bool
  createProcessAsUser : Bool
  /-- `OpenProcess` in `KillProcess`. -/
  openProcess : Bool
  /-- The bytes that `ReadFile` gives, call after call, until it fails. -/
  reads : List (List UInt8)
  /-- `from_bytes` of `std::wstring_convert`, or `none` if it throws. -/
  fromBytes : List UInt8 → Option WString

/-- A program that opens and closes handles. -/
abbrev ExecProgram := Holding Handle ExecFault

/-- `CloseHandle`, or the call that frees. -/
def close (h : Handle) : ExecProgram Unit := Holding.release .notHeld h

/-- `CloseHandle` if the handle is not null. -/
def closeIf (isOpen : Bool) (h : Handle) : ExecProgram Unit :=
  if isOpen then close h else pure ()

/-- A handle that a successful call gives. -/
def acquireIf (success : Bool) (h : Handle) : ExecProgram Unit :=
  if success then acquire h else pure ()

/-- The handles in `process_info`, if the process is created. -/
def createIf (created : Bool) : ExecProgram Unit := do
  acquireIf created .process
  acquireIf created .thread

/-! ### The functions that `ExecCommand` calls -/

/-- `IsRunningAsSystem`. -/
def isRunningAsSystem (a : TokenAnswers) : ExecProgram Bool :=
  if a.openProcessToken then do
    acquire .token
    acquireIf a.malloc .tokenUser
    if a.malloc ∧ a.getTokenInformation then do
      if a.allocateAndInitializeSid then do
        acquire .systemSid
        close .systemSid
        close .token
        close .tokenUser
        return a.equalSid
      else do
        close .token
        close .tokenUser
        return false
    else do
      close .token
      closeIf a.malloc .tokenUser
      return false
  else pure false

/-- `GetCurrentSessionId`. -/
def getCurrentSessionId (sessions : Option (List (UInt32 × Bool))) : ExecProgram UInt32 :=
  match sessions with
  | none => pure 0
  | some infos => do
    acquire .sessionInfo
    close .sessionInfo
    return ((infos.find? Prod.snd).map Prod.fst).getD 0xFFFFFFFF

/-- `KillProcess`. The answer of `TerminateProcess` makes no difference to what is held. -/
def killProcess (openProcess : Bool) : ExecProgram Unit := do
  acquireIf openProcess .opened
  closeIf openProcess .opened

/-! ### `CreateProcessAsUserW` -/

section
variable (a : ExecAnswers)

/-- `WTSFreeMemory(p_user_name)`. The pointer has no value before the query. -/
def freeUserName : ExecProgram Unit :=
  if a.queryUserName then close .userName else throw .uninitialized

/-- From the query of the user's name to the end of the block. The flag is whether there is a
process. -/
def asUser : ExecProgram Bool := do
  acquireIf a.queryUserName .userName
  acquireIf a.impersonateLoggedOnUser .impersonation
  createIf a.createProcessAsUser
  -- `RevertToSelf`.
  closeIf a.impersonateLoggedOnUser .impersonation
  freeUserName a
  return a.createProcessAsUser

/-- With the token of the user's process. -/
def withUserToken : ExecProgram Bool :=
  if a.duplicateToken then do
    acquire .userToken
    let created ← asUser a
    close .userToken
    return created
  else pure false

/-- With the real token behind the impersonation token. -/
def withLinkedToken : ExecProgram Bool :=
  if a.getTokenInformation then do
    acquire .linkedToken
    let created ← withUserToken a
    close .linkedToken
    return created
  else pure false

/-- With the impersonation token of the session. -/
def withImpersonationToken : ExecProgram Bool :=
  if a.queryUserToken then do
    acquire .impersonationToken
    let created ← withLinkedToken a
    close .impersonationToken
    return created
  else pure false

/-- The block for a service whose `CreateProcessW` has failed. The flag is whether there is a
process. If not, the block returns from `ExecCommand`. -/
def createAsUser : ExecProgram Bool := do
  let sessionId ← getCurrentSessionId a.sessions
  if sessionId = 0 then return false
  else match a.connectState with
    | none => return false
    | some active => do
      acquire .connectState
      close .connectState
      if active then withImpersonationToken a else return false

/-! ### `ExecCommand` -/

/-- The C string in a buffer behind whose bytes a zero is written. -/
def cBytes (chunk : List UInt8) : List UInt8 := chunk.takeWhile fun b => b ≠ 0

/-- The loop over `ReadFile`. -/
def readAll (reads : List (List UInt8)) : List UInt8 :=
  reads.foldl (fun result chunk => result ++ cBytes chunk) []

/-- From `CloseHandle(stdout_write)` on. If the command was not started, nobody writes into the
pipe, and the first `ReadFile` fails. -/
def readOutput (created : Bool) : ExecProgram (Option WString) := do
  close .stdoutWrite
  return a.fromBytes (readAll (if created then a.reads else []))

/-- What the body of `ExecCommand` ends with. -/
structure ExecEnd where
  /-- What is returned, or `none` for an exception. -/
  result : Option WString
  /-- `process_info` has handles. -/
  created : Bool
  /-- `stdout_write != nullptr`. -/
  stdoutWrite : Bool

/-- The body of a service whose `CreateProcessW` has failed. -/
def execAsSystem : ExecProgram ExecEnd := do
  if ← createAsUser a then
    let result ← readOutput a true
    return ⟨result, true, false⟩
  else return ⟨some [], false, true⟩

/-- The body, behind `CreatePipe`. -/
def execBody : ExecProgram ExecEnd :=
  if a.createProcess then do
    createIf true
    let result ← readOutput a true
    return ⟨result, true, false⟩
  else do
    let isSystem ← isRunningAsSystem a.token
    if isSystem then execAsSystem a
    else do
      let result ← readOutput a false
      return ⟨result, false, false⟩

/-- `ExecCommand`, or `none` for an exception. -/
def execCommand : ExecProgram (Option WString) :=
  if a.createPipe then do
    acquire .stdoutRead
    acquire .stdoutWrite
    let e ← execBody a
    closeIf e.created .process
    closeIf e.created .thread
    killProcess a.openProcess
    close .stdoutRead
    closeIf e.stdoutWrite .stdoutWrite
    return e.result
  else return some []

end

/-! ### What is meant -/

namespace TokenAnswers

/-- The service runs as the system, and can find that out. -/
def isSystem (a : TokenAnswers) : Bool :=
  a.openProcessToken && a.malloc && a.getTokenInformation && a.allocateAndInitializeSid &&
    a.equalSid

end TokenAnswers

namespace ExecAnswers

variable (a : ExecAnswers)

/-- The id of the first active session. -/
def sessionId : UInt32 :=
  match a.sessions with
  | none => 0
  | some infos => ((infos.find? Prod.snd).map Prod.fst).getD 0xFFFFFFFF

/-- The token that is needed to start a process as the user of the session. -/
def hasUserToken : Bool :=
  a.sessionId ≠ 0 && a.connectState = some true && a.queryUserToken && a.getTokenInformation &&
    a.duplicateToken

/-- `CreateProcessAsUserW` is tried. -/
def triesAsUser : Bool := !a.createProcess && a.token.isSystem && a.hasUserToken

/-- The command was started. -/
def started : Bool := a.createProcess || (a.triesAsUser && a.createProcessAsUser)

/-- The output of the command as `ReadFile` has split it. -/
def output : List UInt8 := if a.started then (a.reads.map cBytes).flatten else []

/-- The call returns before the output is read. -/
def leavesEarly : Bool := !a.createPipe || (!a.createProcess && a.token.isSystem && !a.started)

/-- What a call returns. -/
def outcome : Except ExecFault (Option WString) :=
  if a.createPipe ∧ a.triesAsUser ∧ ¬ a.queryUserName then .error .uninitialized
  else if a.leavesEarly then .ok (some [])
  else .ok (a.fromBytes a.output)

end ExecAnswers

end KernelEventsTrace.EtwService.Ulti
