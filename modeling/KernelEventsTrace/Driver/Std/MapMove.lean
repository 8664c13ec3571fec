import KernelEventsTrace.Driver.Std.MapRun
import Mathlib.Logic.Function.Basic

/-!
# `KernelEventsTrace.Driver.Std.MapMove`: maps that are moved and destroyed

The move constructor, the move assignment and the destructor of `driver/std/map/map.h`. A map that
was moved from has null pointers in `root_` and `nil_`.

`MoveWorld` is a memory with several maps, each with an address of its own. `MoveAct` is a step of a
program that uses them. A step at an address where no map is does nothing, and neither does a
construction at an address where one is.
-/

set_option autoImplicit false

namespace KernelEventsTrace.Driver.Std

variable {K V : Type}

namespace Map

/-- `delete nil_`, which does nothing for a null pointer. -/
def deleteNil (m : Map K V) : Except Fault (Map K V) :=
  if m.nil = nullptr then .ok m else m.deleteNode m.nil

/-- `~Map()`. -/
def destroy (m : Map K V) : Except Fault (Map K V) := do
  let m ← m.clear
  m.deleteNil

/-- What a move leaves of its source. -/
def movedFrom : MapObj := { root := nullptr, nil := nullptr, size := 0 }

/-- `Map(Map&& other)`: the new map, and what is left of `other`. -/
def moveConstruct (other : MapObj) : MapObj × MapObj :=
  ({ root := other.root, nil := other.nil, size := other.size }, movedFrom)

/-- `operator=(Map&& other)`, for another object than `this`. -/
def moveAssign (m : Map K V) (other : MapObj) : Except Fault (Map K V × MapObj) := do
  let m ← m.clear
  let m ← m.deleteNil
  return ({ m with root := other.root, nil := other.nil, size := other.size }, movedFrom)

end Map

/-- A memory with maps at some addresses. -/
structure MoveWorld (K V : Type) where
  heap : Heap K V
  maps : Nat → Option MapObj

/-- A step of a program. Maps are named by their addresses. -/
inductive MoveAct (K V : Type) where
  | construct (this : Nat)
  | call (this : Nat) (op : Op K V)
  | beginIt (this : Nat)
  | endIt (this : Nat)
  | moveConstruct (this other : Nat)
  | moveAssign (this other : Nat)
  | copyAssign (this other : Nat)
  | destroy (this : Nat)
  deriving Repr, DecidableEq

/-- The maps of a world, at their places in its list. -/
def World.toMoveWorld (w : World K V) : MoveWorld K V := ⟨w.heap, fun i => w.maps[i]?⟩

namespace MoveWorld

/-- The map at an address. -/
def map (w : MoveWorld K V) (i : Nat) : Option (Map K V) :=
  (w.maps i).map fun o => { o with heap := w.heap }

/-- The world with another map at an address. -/
def put (w : MoveWorld K V) (i : Nat) (m : Map K V) : MoveWorld K V :=
  ⟨m.heap, Function.update w.maps i (some m.toMapObj)⟩

section
variable (compare : K → K → Bool) [Inhabited K] [Inhabited V] (fuel : Nat)

/-- A step, and what the caller sees. `fuel` bounds the recursion of `Copy`. -/
def step (w : MoveWorld K V) : MoveAct K V → Except Fault (Result K V × MoveWorld K V)
  | .construct i =>
    match w.maps i with
    | some _ => .ok (.done, w)
    | none => .ok (.done, w.put i (Map.construct w.heap))
  | .call i op =>
    match w.map i with
    | none => .ok (.done, w)
    | some m => do
      let (r, m) ← m.exec compare op
      return (r, w.put i m)
  | .beginIt i =>
    match w.map i with
    | none => .ok (.done, w)
    | some m => do
      let it ← m.begin'
      return (.iterator (← m.deref it), w)
  | .endIt i =>
    match w.map i with
    | none => .ok (.done, w)
    | some m => do
      return (.iterator (← m.deref m.endIt), w)
  | .moveConstruct i j =>
    match w.maps i, w.maps j with
    | none, some other =>
      let (o, other) := Map.moveConstruct other
      .ok (.done, ⟨w.heap, Function.update (Function.update w.maps i (some o)) j (some other)⟩)
    | _, _ => .ok (.done, w)
  | .moveAssign i j =>
    if i = j then .ok (.done, w)
    else
      match w.map i, w.maps j with
      | some m, some other => do
        let (m, other) ← m.moveAssign other
        let w := w.put i m
        return (.done, { w with maps := Function.update w.maps j (some other) })
      | _, _ => .ok (.done, w)
  | .copyAssign i j =>
    if i = j then .ok (.done, w)
    else
      match w.map i, w.maps j with
      | some m, some other => do
        let m ← m.copyAssign fuel other
        return (.done, w.put i m)
      | _, _ => .ok (.done, w)
  | .destroy i =>
    match w.map i with
    | none => .ok (.done, w)
    | some m => do
      let m ← m.destroy
      return (.done, ⟨m.heap, Function.update w.maps i none⟩)

end

end MoveWorld

end KernelEventsTrace.Driver.Std
