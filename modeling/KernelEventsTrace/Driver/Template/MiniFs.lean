import KernelEventsTrace.Driver.Function.SelfDefense
import KernelEventsTrace.Driver.Std.UnicodeString
import KernelEventsTrace.Driver.Std.Vector

/-!
# `KernelEventsTrace.Driver.Template.MiniFs`: the callbacks of the minifilter

`MiniFsPreOperation` and `MiniFsPostOperation` of `driver/template/MiniFs.cpp`, with the contexts
of `driver/template/register.cpp`. A registered function may do anything to the rest of the
state, which is a type `σ`, but leaves the completion context alone.

The memory of the contexts keeps an empty cell for each context that was deallocated. A use of
such a context is a fault, and so is its deallocation.
-/

set_option autoImplicit false

namespace KernelEventsTrace.Driver.MiniFs

open KernelEventsTrace (BufferFault Buffer forRange)
open KernelEventsTrace.Driver.Std
open KernelEventsTrace.Driver.SelfDefense (Mode Pid Globals ImageQuery CreateRequest
  SetInformationRequest PreopResult preCreateFile preSetInformationFile)

/-- `FLT_PREOP_CALLBACK_STATUS`, in the order of the values. -/
inductive PreopCallbackStatus where
  | successWithCallback
  | successNoCallback
  | pending
  | disallowFastio
  | complete
  | synchronize
  | disallowFsfilterIo
  deriving Repr, DecidableEq

/-- The value zero. -/
instance : Inhabited PreopCallbackStatus := ⟨.successWithCallback⟩

/-- `reg::IrpMjFunc`. -/
structure IrpMjFunc (σ : Type) where
  irpMjFunctionCode : Nat
  preFunc : Option (σ → PreopCallbackStatus × σ)
  postFunc : Option (σ → σ)

/-- What the callbacks read of an operation. -/
structure Operation where
  /-- `flt_objects->FileObject != NULL`. -/
  hasFileObject : Bool
  requestorMode : Mode
  majorFunction : Nat
  deriving Repr, DecidableEq

/-- `reg::Context`. -/
structure Context where
  status : VectorObj PreopCallbackStatus
  deriving Repr, DecidableEq

/-- The contexts that were allocated so far, without those that were deallocated, and the rest of
the state. -/
structure State (σ : Type) where
  contexts : List (Option Context)
  rest : σ

/-- A pointer to a context. -/
abbrev ContextPtr := Nat

namespace State

variable {σ : Type}

/-- `*p`. -/
def context (st : State σ) (p : ContextPtr) : Except BufferFault Context :=
  match st.contexts[p]? with
  | some (some context) => .ok context
  | _ => .error .outOfBounds

/-- A write through `p`. -/
def put (st : State σ) (p : ContextPtr) (context : Context) : State σ :=
  { st with contexts := st.contexts.set p (some context) }

/-- `AllocCompletionContext`. -/
def allocCompletionContext (pool : Pool) (functions : Nat) (st : State σ) :
    Except BufferFault (ContextPtr × State σ) := do
  let status ← VectorObj.constructSize pool functions
  return (st.contexts.length, { st with contexts := st.contexts ++ [some ⟨status⟩] })

/-- `DeallocCompletionContext`. -/
def deallocCompletionContext (st : State σ) (p : ContextPtr) : Except BufferFault (State σ) := do
  let _ ← st.context p
  return { st with contexts := st.contexts.set p none }

/-- `p->status->Resize(size)`. -/
def resizeStatus (pool : Pool) (st : State σ) (p : ContextPtr) (size : Nat) :
    Except BufferFault (State σ) := do
  let context ← st.context p
  return st.put p ⟨← context.status.resize pool size default⟩

/-- `(*(p->status))[i]`. -/
def readStatus (st : State σ) (p : ContextPtr) (i : Nat) :
    Except BufferFault PreopCallbackStatus := do
  let context ← st.context p
  context.status.elements.read i

/-- `(*(p->status))[i] = status`. -/
def writeStatus (st : State σ) (p : ContextPtr) (i : Nat) (status : PreopCallbackStatus) :
    Except BufferFault (State σ) := do
  let context ← st.context p
  let elements ← context.status.elements.write i status
  return st.put p ⟨{ context.status with elements := elements }⟩

end State

section
variable {σ : Type} (pool : Pool) (fltFuncVector : List (IrpMjFunc σ)) (op : Operation)

/-- The loop of `MiniFsPreOperation`, over the functions from the index `i` on. -/
def preLoop (p : ContextPtr) :
    List (IrpMjFunc σ) → Nat → State σ → Except BufferFault (PreopCallbackStatus × State σ)
  | [], _, st => .ok (.successWithCallback, st)
  | func :: funcs, i, st =>
    if op.majorFunction = func.irpMjFunctionCode then
      match func.preFunc with
      | none => preLoop p funcs (i + 1) st
      | some preFunc => do
        let (status, rest) := preFunc st.rest
        let st ← { st with rest := rest }.writeStatus p i status
        if status = .complete then
          return (.complete, ← st.deallocCompletionContext p)
        else preLoop p funcs (i + 1) st
    else preLoop p funcs (i + 1) st

/-- `MiniFsPreOperation`. Returns the status and the completion context that it leaves. -/
def miniFsPreOperation (completionContext : Option ContextPtr) (st : State σ) :
    Except BufferFault (PreopCallbackStatus × Option ContextPtr × State σ) := do
  if op.hasFileObject = false then
    return (.successNoCallback, completionContext, st)
  else if op.requestorMode = .kernelMode then
    return (.successNoCallback, completionContext, st)
  else
    match completionContext with
    | none =>
      let (p, st) ← st.allocCompletionContext pool fltFuncVector.length
      let st ← st.resizeStatus pool p fltFuncVector.length
      let (status, st) ← preLoop op p fltFuncVector 0 st
      return (status, some p, st)
    | some p =>
      let (status, st) ← preLoop op p fltFuncVector 0 st
      return (status, some p, st)

/-- The loop of `MiniFsPostOperation`, over the functions from the index `i` on. -/
def postLoop (p : ContextPtr) :
    List (IrpMjFunc σ) → Nat → State σ → Except BufferFault (State σ)
  | [], _, st => .ok st
  | func :: funcs, i, st =>
    if op.majorFunction = func.irpMjFunctionCode then
      match func.postFunc with
      | none => postLoop p funcs (i + 1) st
      | some postFunc => do
        if (← st.readStatus p i) ≠ .successNoCallback ∧ (← st.readStatus p i) ≠ .complete then
          postLoop p funcs (i + 1) { st with rest := postFunc st.rest }
        else postLoop p funcs (i + 1) st
    else postLoop p funcs (i + 1) st

/-- `MiniFsPostOperation`, after the operation ended with `ioStatus`. -/
def miniFsPostOperation (completionContext : Option ContextPtr) (ioStatus : NtStatus)
    (st : State σ) : Except BufferFault (State σ) :=
  match completionContext with
  | none => .ok st
  | some p =>
    if ntSuccess ioStatus = false then st.deallocCompletionContext p
    else do
      let st ← postLoop op p fltFuncVector 0 st
      st.deallocCompletionContext p

/-- An operation that both callbacks are registered for. If the pre-operation callback does not
complete it, it ends with `ioStatus` below the minifilter, and the post-operation callback is called
if the pre-operation callback asked for it. Returns whether the operation was completed. -/
def operation (ioStatus : NtStatus) (st : State σ) : Except BufferFault (Bool × State σ) := do
  let (status, completionContext, st) ← miniFsPreOperation pool fltFuncVector op none st
  match status with
  | .complete => return (true, st)
  | .successWithCallback =>
    return (false, ← miniFsPostOperation fltFuncVector op completionContext ioStatus st)
  | _ => return (false, st)

end

/-! ### The registered functions -/

/-- The code of a create operation. -/
def IRP_MJ_CREATE : Nat := 0x00
/-- The code of an operation that sets information. -/
def IRP_MJ_SET_INFORMATION : Nat := 0x06

/-- The status that a file callback of the self-defense returns, also after the release of a pointer
that was never written. -/
def callbackStatus : PreopResult → PreopCallbackStatus
  | .successNoCallback => .successNoCallback
  | .complete _ => .complete
  | .releaseUnset => .successNoCallback

/-- What the file callbacks change, and whether one of them released a pointer that was never
written. -/
structure CallbackState where
  globals : Globals
  unsetReleased : Bool

/-- A call of a file callback. -/
def callFileCallback (callback : Globals → PreopResult × Globals) (s : CallbackState) :
    PreopCallbackStatus × CallbackState :=
  let (result, g) := callback s.globals
  (callbackStatus result, ⟨g, s.unsetReleased || result = .releaseUnset⟩)

/-- The functions that `self_defense::FltRegister` puts into `kFltFuncVector`, for an operation
whose callback data hold the given requests. -/
def registeredFunctions (query : Pid → ImageQuery) (setInformation : SetInformationRequest)
    (create : CreateRequest) : List (IrpMjFunc CallbackState) :=
  [{ irpMjFunctionCode := IRP_MJ_SET_INFORMATION
     preFunc := some (callFileCallback fun g => preSetInformationFile query g setInformation)
     postFunc := none },
   { irpMjFunctionCode := IRP_MJ_CREATE
     preFunc := some (callFileCallback fun g => preCreateFile query g create)
     postFunc := none }]

end KernelEventsTrace.Driver.MiniFs
