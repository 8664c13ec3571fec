import KernelEventsTrace.Driver.Template.MiniFs
import KernelEventsTrace.Lib.Callbacks
import Mathlib.Data.Finset.Insert

/-!
# `KernelEventsTrace.Driver.Template.Lifecycle`: loading and unloading the driver

`DriverEntry`, `DriverUnload` and `MiniFsUnload` of `driver/template/MiniFs.cpp`, with the routines
of `driver/template/register.cpp`, `driver/function/self_defense.cpp` and `driver/com/comport` that
they call, as sequences of the statements that create, register, take out and delete. `Outcomes`
are the answers of the system. Allocations do not fail.

The system unloads a driver whose `DriverEntry` has succeeded through `MiniFsUnload` and
`DriverUnload`, in this order. After a failure of `DriverEntry` it calls neither of them. The image
of the driver is gone after that.

`Callback` has every function that the system may call between these: those of the self-defense, of
the filter and of the port. `FltCloseCommunicationPort` ends no connection, so the handlers of the
port may be called until `FltUnregisterFilter`.
-/

set_option autoImplicit false

namespace KernelEventsTrace.Driver.Lifecycle

open KernelEventsTrace (CallbackSystem)
open KernelEventsTrace.Driver.MiniFs (IRP_MJ_CREATE IRP_MJ_SET_INFORMATION)

/-- The global pointers to objects. -/
inductive Global where
  | kDrvFuncVector
  | kFltFuncVector
  | kProcessMap
  | kProtectedDirList
  | kComPort
  deriving Repr, DecidableEq

/-- What a global pointer points to. -/
inductive Object where
  | null
  | live
  | deleted
  deriving Repr, DecidableEq

/-- What the filter manager knows of the filter. -/
inductive Filter where
  | none
  | registered
  | started
  deriving Repr, DecidableEq

/-- The global variables of the driver, and what is registered with the system. -/
structure System where
  globals : Global → Object
  /-- `kDirMutex` and `kProcessMapMutex` were created. -/
  mutexes : Bool
  /-- The major codes of the functions in `kFltFuncVector`. -/
  fltFuncs : List Nat
  processNotify : Bool
  obCallbacks : Bool
  filter : Filter
  /-- `sec_des_ != NULL`. -/
  secDes : Bool
  /-- `server_port_ != NULL`. -/
  serverPort : Bool
  /-- The port was created, and its connections were not ended. -/
  connections : Bool
  /-- The image of the driver is in memory. -/
  loaded : Bool

/-- Before `DriverEntry`. -/
def System.initial : System where
  globals _ := .null
  mutexes := false
  fltFuncs := []
  processNotify := false
  obCallbacks := false
  filter := .none
  secDes := false
  serverPort := false
  connections := false
  loaded := true

/-- A statement, with the answer of the system. -/
inductive Statement where
  | createMutexes
  | new (g : Global)
  | delete (g : Global)
  | setNull (g : Global)
  /-- `kFltFuncVector->PushBack`. -/
  | pushBack (irpMjFunctionCode : Nat)
  /-- `PsSetCreateProcessNotifyRoutineEx(ProcessNotifyCallback, FALSE)`. -/
  | setProcessNotify (success : Bool)
  /-- `PsSetCreateProcessNotifyRoutineEx(ProcessNotifyCallback, TRUE)`. -/
  | removeProcessNotify
  | obRegisterCallbacks (success : Bool)
  | obUnRegisterCallbacks
  | fltRegisterFilter (success : Bool)
  | fltStartFiltering (success : Bool)
  | fltUnregisterFilter
  | fltBuildDefaultSecurityDescriptor (success : Bool)
  | fltCreateCommunicationPort (success : Bool)
  /-- `ComPort::Close`. -/
  | comPortClose
  | unloadImage
  deriving Repr, DecidableEq

/-- The state after a statement. -/
def System.exec (s : System) : Statement → System
  | .createMutexes => { s with mutexes := true }
  | .new g => { s with globals := Function.update s.globals g .live }
  | .delete g => { s with globals := Function.update s.globals g .deleted }
  | .setNull g => { s with globals := Function.update s.globals g .null }
  | .pushBack code => { s with fltFuncs := s.fltFuncs ++ [code] }
  | .setProcessNotify success => { s with processNotify := s.processNotify || success }
  | .removeProcessNotify => { s with processNotify := false }
  | .obRegisterCallbacks success => { s with obCallbacks := s.obCallbacks || success }
  | .obUnRegisterCallbacks => { s with obCallbacks := false }
  | .fltRegisterFilter success => if success then { s with filter := .registered } else s
  | .fltStartFiltering success => if success then { s with filter := .started } else s
  | .fltUnregisterFilter => { s with filter := .none, connections := false }
  | .fltBuildDefaultSecurityDescriptor success => { s with secDes := s.secDes || success }
  | .fltCreateCommunicationPort success =>
    { s with serverPort := s.serverPort || success, connections := s.connections || success }
  | .comPortClose => { s with secDes := false, serverPort := false }
  | .unloadImage => { s with loaded := false }

/-- What the statement is called with is there. -/
def System.valid (s : System) : Statement → Bool
  | .delete g => s.globals g = .live
  | .pushBack _ => s.globals .kFltFuncVector = .live
  | .obUnRegisterCallbacks => s.obCallbacks
  | .fltStartFiltering _ => s.filter ≠ .none
  | .fltUnregisterFilter => s.filter ≠ .none
  | .fltCreateCommunicationPort _ => s.filter ≠ .none
  | _ => true

/-- The answers of the system. -/
structure Outcomes where
  psSetCreateProcessNotifyRoutineEx : Bool
  obRegisterCallbacks : Bool
  fltRegisterFilter : Bool
  fltStartFiltering : Bool
  fltBuildDefaultSecurityDescriptor : Bool
  fltCreateCommunicationPort : Bool
  deriving Repr, DecidableEq

section
variable (o : Outcomes)

/-! ### Loading -/

/-- `reg::DrvRegister`, with `self_defense::DrvRegister`. -/
def drvRegister : List Statement :=
  [.new .kDrvFuncVector, .createMutexes, .new .kProtectedDirList, .new .kProcessMap,
    .setProcessNotify o.psSetCreateProcessNotifyRoutineEx,
    .obRegisterCallbacks o.obRegisterCallbacks]

/-- `reg::FltRegister`, with `self_defense::FltRegister`. -/
def fltRegister : List Statement :=
  [.new .kFltFuncVector, .new .kComPort, .pushBack IRP_MJ_SET_INFORMATION,
    .pushBack IRP_MJ_CREATE]

/-- `ComPort::Create`. -/
def comPortCreate : List Statement :=
  .fltBuildDefaultSecurityDescriptor o.fltBuildDefaultSecurityDescriptor ::
    if o.fltBuildDefaultSecurityDescriptor then
      .fltCreateCommunicationPort o.fltCreateCommunicationPort ::
        if o.fltCreateCommunicationPort then [] else [.comPortClose]
    else []

/-- `reg::PostFltRegister`. -/
def postFltRegister : List Statement := comPortCreate o

/-- `DriverEntry`. The port is created whether or not the filter was registered. -/
def driverEntry : List Statement :=
  drvRegister o ++ fltRegister ++
    (.fltRegisterFilter o.fltRegisterFilter ::
      if o.fltRegisterFilter then
        .fltStartFiltering o.fltStartFiltering ::
          if o.fltStartFiltering then [] else [.fltUnregisterFilter]
      else []) ++
    postFltRegister o

/-- `DriverEntry` returns a status of success. -/
def Outcomes.entrySucceeds : Bool := o.fltRegisterFilter && o.fltStartFiltering

/-! ### Unloading -/

/-- `MiniFsUnload`: `reg::FltUnload`. -/
def miniFsUnload : List Statement :=
  [.comPortClose, .fltUnregisterFilter, .delete .kFltFuncVector, .setNull .kFltFuncVector]

/-- `DriverUnload`: `reg::DrvUnload`, with `self_defense::DrvUnload`. -/
def driverUnload : List Statement :=
  [.removeProcessNotify, .obUnRegisterCallbacks, .delete .kProcessMap,
    .delete .kProtectedDirList, .delete .kDrvFuncVector, .setNull .kDrvFuncVector]

/-- All statements, from loading the driver until its image is gone. -/
def life : List Statement :=
  driverEntry o ++ (if o.entrySucceeds then miniFsUnload ++ driverUnload else []) ++ [.unloadImage]

end

/-! ### Callbacks -/

/-- What the system calls. -/
inductive Callback where
  | processNotifyCallback
  | preObCallback
  /-- The four functions `MiniFsInstance...`, which do nothing. -/
  | miniFsInstance
  | miniFsPreOperation
  | miniFsPostOperation
  | connectHandler
  | disonnectHandler
  | sendRecvHandler
  deriving Repr, DecidableEq

/-- There are eight of them. -/
instance : Fintype Callback where
  elems := {.processNotifyCallback, .preObCallback, .miniFsInstance, .miniFsPreOperation,
    .miniFsPostOperation, .connectHandler, .disonnectHandler, .sendRecvHandler}
  complete c := by cases c <;> decide

/-- The system may call the callback. -/
def System.registered (s : System) : Callback → Bool
  | .processNotifyCallback => s.processNotify
  | .preObCallback => s.obCallbacks
  | .miniFsInstance => s.filter = .started
  | .miniFsPreOperation => s.filter = .started
  | .miniFsPostOperation => s.filter = .started
  | .connectHandler => s.connections
  | .disonnectHandler => s.connections
  | .sendRecvHandler => s.connections

/-- The process map and the protected directories are there, with their mutexes. -/
def System.selfDefense (s : System) : Bool :=
  s.mutexes ∧ s.globals .kProcessMap = .live ∧ s.globals .kProtectedDirList = .live

/-- What a callback uses is there. The functions in `kFltFuncVector` use what the self-defense
has, and a connection is closed with the handle of the filter. -/
def System.uses (s : System) : Callback → Bool
  | .processNotifyCallback => s.loaded ∧ s.selfDefense
  | .preObCallback => s.loaded ∧ s.selfDefense
  | .miniFsInstance => s.loaded
  | .miniFsPreOperation =>
    s.loaded ∧ s.globals .kFltFuncVector = .live ∧ (s.fltFuncs ≠ [] → s.selfDefense)
  | .miniFsPostOperation => s.loaded ∧ s.globals .kFltFuncVector = .live
  | .connectHandler => s.loaded
  | .disonnectHandler => s.loaded ∧ s.filter ≠ .none
  | .sendRecvHandler => s.loaded

/-- The functions of the system that take out a callback wait for its calls. -/
def waits : Statement → Callback → Bool
  | .removeProcessNotify, .processNotifyCallback => true
  | .obUnRegisterCallbacks, .preObCallback => true
  | .fltUnregisterFilter, .miniFsInstance => true
  | .fltUnregisterFilter, .miniFsPreOperation => true
  | .fltUnregisterFilter, .miniFsPostOperation => true
  | .fltUnregisterFilter, .connectHandler => true
  | .fltUnregisterFilter, .disonnectHandler => true
  | .fltUnregisterFilter, .sendRecvHandler => true
  | _, _ => false

/-- The driver with its callbacks. -/
def driver : CallbackSystem System Statement Callback where
  exec := System.exec
  registered := System.registered
  uses := System.uses
  waits := waits

end KernelEventsTrace.Driver.Lifecycle
