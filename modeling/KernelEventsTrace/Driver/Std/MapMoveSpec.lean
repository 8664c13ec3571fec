import KernelEventsTrace.Driver.Std.MapMove
import KernelEventsTrace.Driver.Std.MapSpec

/-!
# `KernelEventsTrace.Driver.Std.MapMoveSpec`: what moves are for

The abstract meaning of the steps of a `MoveWorld`. At each address where a map is, there is a
finite map. A move takes the finite map over and leaves the empty one, and a copy takes it over and
leaves it. Nothing here is taken from the code of `Map`.
-/

set_option autoImplicit false

namespace KernelEventsTrace.Driver.Std.Spec

open KernelEventsTrace.OrdMap (StrictWeak FMap)

variable {K V : Type} {compare : K → K → Bool} [StrictWeak compare] [Inhabited V]

/-- A step on the finite maps. -/
noncomputable def moveStep (Fs : Nat → Option (FMap compare V)) :
    MoveAct K V → Nat → Option (FMap compare V)
  | .construct i =>
    match Fs i with
    | some _ => Fs
    | none => Function.update Fs i (some FMap.empty)
  | .call i op =>
    match Fs i with
    | none => Fs
    | some F => Function.update Fs i (some (exec F op).2)
  | .beginIt _ => Fs
  | .endIt _ => Fs
  | .moveConstruct i j =>
    match Fs i, Fs j with
    | none, some F => Function.update (Function.update Fs i (some F)) j (some FMap.empty)
    | _, _ => Fs
  | .moveAssign i j =>
    if i = j then Fs
    else
      match Fs i, Fs j with
      | some _, some F => Function.update (Function.update Fs i (some F)) j (some FMap.empty)
      | _, _ => Fs
  | .copyAssign i j =>
    if i = j then Fs
    else
      match Fs i, Fs j with
      | some _, some F => Function.update Fs i (some F)
      | _, _ => Fs
  | .destroy i => Function.update Fs i none

/-- What the caller should see of a step on a finite map. -/
def Answers (Fs : Nat → Option (FMap compare V)) : MoveAct K V → Result K V → Prop
  | .call i op, r => ∀ F, Fs i = some F → r = (exec F op).1
  | .beginIt i, r => ∀ F, Fs i = some F → ∃ it, r = .iterator it ∧ F.IsFirst it
  | .endIt i, r => ∀ F, Fs i = some F → r = .iterator none
  | _, _ => True

end KernelEventsTrace.Driver.Std.Spec
