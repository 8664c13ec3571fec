import KernelEventsTrace.Driver.Function.SelfDefenseRun
import KernelEventsTrace.Driver.Template.MiniFs

/-!
# `KernelEventsTrace.Driver.Template.FileRun`: file operations of processes that come and go

The minifilter with the functions that `self_defense::FltRegister` registers, beside the processes
of the system. `FltState` is the state of both. A file operation of an existing process runs through
`MiniFsPreOperation` and `MiniFsPostOperation`, in any order with the events of the processes.
-/

set_option autoImplicit false

namespace KernelEventsTrace.Driver.MiniFs

open KernelEventsTrace (BufferFault)
open KernelEventsTrace.Driver.Std
open KernelEventsTrace.Driver.SelfDefense (Mode Pid Dword World Event CreateRequest
  SetInformationRequest FileInformationClass)

/-- The parameters of an operation, by its major code. -/
inductive IrpParameters where
  | create (desiredAccess options : Dword)
  | setInformation (fileInformationClass : FileInformationClass)
      (destination : Option (List WChar))
  | other (majorFunction : Nat) (ne_create : majorFunction ≠ IRP_MJ_CREATE)
      (ne_setInformation : majorFunction ≠ IRP_MJ_SET_INFORMATION)
  deriving Repr, DecidableEq

/-- The code of the operation. -/
def IrpParameters.majorFunction : IrpParameters → Nat
  | .create _ _ => IRP_MJ_CREATE
  | .setInformation _ _ => IRP_MJ_SET_INFORMATION
  | .other majorFunction _ _ => majorFunction

/-- A file operation: the callback data, and the thread that it is called in. -/
structure FileRequest where
  hasFileObject : Bool
  requestorMode : Mode
  previousMode : Mode
  currentPid : Pid
  /-- The result of `flt::GetFileFullPathName`. -/
  filePath : KString WChar
  parameters : IrpParameters
  deriving Repr, DecidableEq

namespace FileRequest

variable (r : FileRequest)

/-- The operation as the loops of the minifilter see it. -/
def operation : Operation := ⟨r.hasFileObject, r.requestorMode, r.parameters.majorFunction⟩

/-- What `PreCreateFile` reads. It is called for create requests only. -/
def create : CreateRequest where
  requestorMode := r.requestorMode
  previousMode := r.previousMode
  currentPid := r.currentPid
  filePath := r.filePath
  desiredAccess :=
    match r.parameters with
    | .create desiredAccess _ => desiredAccess
    | _ => 0
  options :=
    match r.parameters with
    | .create _ options => options
    | _ => 0

/-- What `PreSetInformationFile` reads. -/
def setInformation : SetInformationRequest where
  requestorMode := r.requestorMode
  previousMode := r.previousMode
  currentPid := r.currentPid
  filePath := r.filePath
  fileInformationClass :=
    match r.parameters with
    | .setInformation fileInformationClass _ => fileInformationClass
    | _ => .other 0
  destination :=
    match r.parameters with
    | .setInformation _ destination => destination
    | _ => none

end FileRequest

/-- The processes with the driver, and the completion contexts. -/
structure FltState where
  world : World
  contexts : List (Option Context)

namespace FltState

variable (pool : Pool)

/-- A file operation that ends with `ioStatus`, unless the minifilter completes it. Returns whether
it does. The release of a pointer that was never written is a fault. -/
def fileOperation (st : FltState) (r : FileRequest) (ioStatus : NtStatus) :
    Except BufferFault (Bool × FltState) := do
  let funcs := registeredFunctions st.world.query r.setInformation r.create
  let (denied, s) ← operation pool funcs r.operation ioStatus
    ⟨st.contexts, ⟨st.world.globals, false⟩⟩
  if s.rest.unsetReleased then .error .outOfBounds
  else return (denied, ⟨{ st.world with globals := s.rest.globals }, s.contexts⟩)

end FltState

end KernelEventsTrace.Driver.MiniFs
