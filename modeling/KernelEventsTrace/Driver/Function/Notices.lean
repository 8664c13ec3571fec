import KernelEventsTrace.Driver.Function.SelfDefense

/-!
# `KernelEventsTrace.Driver.Function.Notices`: runs of the registered callbacks

A `Notice` is a call of one of the callbacks, with what the kernel answers during the call. The
answers may change from call to call. `Globals.run` is a sequence of such calls, in the order of
their critical sections.
-/

set_option autoImplicit false

namespace KernelEventsTrace.Driver.SelfDefense

/-- A call of a callback. -/
inductive Notice where
  /-- The process `currentPid` creates the process `pid`. -/
  | creation (query : Pid → ImageQuery) (currentPid pid : Pid) (startTime : Time)
  | termination (pid : Pid)
  /-- `IsProtectedProcess` is called. -/
  | lookup (query : Pid → ImageQuery) (pid : Pid)
  | createFile (query : Pid → ImageQuery) (data : CreateRequest)
  | setInformationFile (query : Pid → ImageQuery) (data : SetInformationRequest)
  | createHandle (query : Pid → ImageQuery) (op : ObRequest)

/-- The static variables after a call. -/
def Globals.next (g : Globals) : Notice → Globals
  | .creation query currentPid pid startTime => notifyCreation query g currentPid pid startTime
  | .termination pid => notifyTermination g pid
  | .lookup query pid => (isProtectedProcess query g pid).2
  | .createFile query data => (preCreateFile query g data).2
  | .setInformationFile query data => (preSetInformationFile query g data).2
  | .createHandle query op => (preObCallback query g op).2

/-- The static variables after a sequence of calls. -/
def Globals.run (g : Globals) (notices : List Notice) : Globals := notices.foldl Globals.next g

/-- The call refuses a request or takes rights from it. -/
def Notice.Blocked (g : Globals) : Notice → Prop
  | .createFile query data => (preCreateFile query g data).1 ≠ .successNoCallback
  | .setInformationFile query data => (preSetInformationFile query g data).1 ≠ .successNoCallback
  | .createHandle query op => (preObCallback query g op).1 ≠ op.desiredAccess
  | _ => False

/-- The callback of the notice is evaluated. -/
instance (g : Globals) : (notice : Notice) → Decidable (notice.Blocked g)
  | .creation .. | .termination _ | .lookup .. => inferInstanceAs (Decidable False)
  | .createFile query data =>
    inferInstanceAs (Decidable ((preCreateFile query g data).1 ≠ .successNoCallback))
  | .setInformationFile query data =>
    inferInstanceAs (Decidable ((preSetInformationFile query g data).1 ≠ .successNoCallback))
  | .createHandle query op =>
    inferInstanceAs (Decidable ((preObCallback query g op).1 ≠ op.desiredAccess))

end KernelEventsTrace.Driver.SelfDefense
