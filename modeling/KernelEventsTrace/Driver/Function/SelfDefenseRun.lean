import KernelEventsTrace.Driver.Function.SelfDefense

/-!
# `KernelEventsTrace.Driver.Function.SelfDefenseRun`: processes that come and go

`World` is the state of the driver next to the processes of the system. A process object
comes into being, its creation is notified, its termination is notified, and only after that
its PID may go to another process. The callbacks of the driver run in any order with these
events: a request for a handle may name a process before its creation notification, and also
after its termination notification.

The kernel answers every lookup of an image path with the path of the process object that the
PID names at that moment. So a callback only happens for PIDs that name one.
-/

set_option autoImplicit false

namespace KernelEventsTrace.Driver.SelfDefense

open KernelEventsTrace.Driver.Std (KString WChar)

/-- Where a process is in its life. -/
inductive Phase where
  /-- The process object exists, and its creation was not notified yet. -/
  | spawned
  | running
  /-- The termination was notified, and the PID is not reused yet. -/
  | exited
  deriving Repr, DecidableEq

/-- A process of the system. -/
structure Process where
  path : List WChar
  /-- The image paths of the creator, of its creator, and so on. -/
  ancestors : List (List WChar)
  phase : Phase
  /-- The system time at the creation notification. -/
  created : Time
  deriving Repr, DecidableEq

/-- The driver and the processes of the system. -/
structure World where
  procs : Pid → Option Process
  globals : Globals

/-- What happens in the system. -/
inductive Event where
  /-- A process object with the image `path` gets the free PID `pid`. -/
  | spawn (pid : Pid) (path : List WChar)
  /-- The creation notification, in the process `creator`. -/
  | notifyCreation (creator pid : Pid) (now : Time)
  | notifyTermination (pid : Pid)
  /-- A file callback asks whether the process is protected. -/
  | query (pid : Pid)
  | createHandle (op : ObRequest)
  deriving Repr, DecidableEq

namespace World

/-- The answers to a lookup of an image path. -/
def query (w : World) (pid : Pid) : ImageQuery :=
  match w.procs pid with
  | some p => { found := true, located := some p.path, resolved := true, opened := true,
                mismatch := true, allocated := true, queried := [] }
  | none => { found := false, located := none, resolved := true, opened := false,
              mismatch := false, allocated := false, queried := [] }

/-- The PID may be given to a new process. -/
def free (w : World) (pid : Pid) : Bool :=
  match w.procs pid with
  | some p => p.phase = .exited
  | none => true

/-- The process as the creation notification leaves it. -/
def started (p creator : Process) (now : Time) : Process :=
  { p with phase := .running, ancestors := creator.path :: creator.ancestors, created := now }

/-- An event, if it can happen. -/
def step (w : World) : Event → Option World
  | .spawn pid path =>
    if w.free pid then
      some { w with procs := Function.update w.procs pid
                      (some { path := path, ancestors := [], phase := .spawned, created := 0 }) }
    else none
  | .notifyCreation creator pid now =>
    match w.procs pid, w.procs creator with
    | some p, some c =>
      if p.phase = .spawned ∧ c.phase = .running then
        some { procs := Function.update w.procs pid (some (started p c now)),
               globals := notifyCreation w.query w.globals creator pid now }
      else none
    | _, _ => none
  | .notifyTermination pid =>
    match w.procs pid with
    | some p =>
      if p.phase = .running then
        some { procs := Function.update w.procs pid (some { p with phase := .exited }),
               globals := notifyTermination w.globals pid }
      else none
    | none => none
  | .query pid =>
    if (w.procs pid).isSome then
      some { w with globals := (isProtectedProcess w.query w.globals pid).2 }
    else none
  | .createHandle op =>
    if (w.procs op.sourcePid).isSome ∧ (w.procs op.object.targetPid).isSome then
      some { w with globals := (preObCallback w.query w.globals op).2 }
    else none

/-- A sequence of events, if each of them can happen in turn. -/
def run (w : World) : List Event → Option World
  | [] => some w
  | ev :: evs => do
    let w ← w.step ev
    run w evs

end World

end KernelEventsTrace.Driver.SelfDefense
