import KernelEventsTrace.Driver.Std.Map

/-!
# `KernelEventsTrace.Driver.Std.MapRun`: programs that use `Map`

`Op` is a call of a public member function on one map, and `Map.exec` runs it and reports
what the caller sees. An iterator is reported as the entry it points to, and `End()` as
`none`.

`World` is a memory with several maps in it. An `Act` constructs a map, calls a member
function on one of them, or erases an element through an iterator. `World.Reachable` holds
of every world that such calls can produce.
-/

set_option autoImplicit false

namespace KernelEventsTrace.Driver.Std

open KernelEventsTrace.RedBlack (Side)

/-- A call of a member function. `assign` is `m[key] = val`. -/
inductive Op (K V : Type) where
  | insert (key : K) (val : V)
  | index (key : K)
  | assign (key : K) (val : V)
  | erase (key : K)
  | find (key : K)
  | count (key : K)
  | size
  | clear
  deriving Repr, DecidableEq

/-- What the caller sees of the result. -/
inductive Result (K V : Type) where
  | inserted (it : Option (K × V)) (isNew : Bool)
  | value (val : V)
  | number (n : Nat)
  | iterator (it : Option (K × V))
  | done
  deriving Repr, DecidableEq

variable {K V : Type}

namespace Map

/-- The entry an iterator points to. -/
def deref (m : Map K V) (it : Iterator) : Except Fault (Option (K × V)) := do
  if it = m.endIt then
    return none
  else
    let n ← m.node it
    return some (n.key, n.val)

section
variable (compare : K → K → Bool) [Inhabited V]

/-- A member function call. -/
def exec (m : Map K V) : Op K V → Except Fault (Result K V × Map K V)
  | .insert key val => do
    let (it, isNew, m) ← m.insert compare key val
    return (.inserted (← m.deref it) isNew, m)
  | .index key => do
    let (p, m) ← m.index compare key
    return (.value (← m.node p).val, m)
  | .assign key val => do
    let (p, m) ← m.index compare key
    let m ← m.update p fun n => { n with val := val }
    return (.done, m)
  | .erase key => do
    let (n, m) ← m.erase compare key
    return (.number n, m)
  | .find key => do
    let it ← m.find compare key
    return (.iterator (← m.deref it), m)
  | .count key => do
    return (.number (← m.count compare key), m)
  | .size => return (.number m.size, m)
  | .clear => do
    let m ← m.clear
    return (.done, m)

/-- A sequence of calls, with the results in order. -/
def execAll (m : Map K V) : List (Op K V) → Except Fault (List (Result K V) × Map K V)
  | [] => return ([], m)
  | op :: ops => do
    let (r, m) ← m.exec compare op
    let (rs, m) ← execAll m ops
    return (r :: rs, m)

end

/-- The elements of a map: the nodes below `root_`. -/
inductive Element (m : Map K V) : Iterator → Prop where
  | root : m.root ≠ m.nil → Element m m.root
  | child {p : Ptr} {n : Node K V} (d : Side) :
      Element m p → m.node p = .ok n → n.child d ≠ m.nil → Element m (n.child d)

end Map

/-- Several maps in one memory. -/
structure World (K V : Type) where
  heap : Heap K V
  maps : List MapObj
  deriving Repr, DecidableEq

/-- A step of a program that uses maps. -/
inductive Act (K V : Type) where
  | construct
  | call (i : Nat) (op : Op K V)
  | eraseAt (i : Nat) (position : Iterator)
  deriving Repr, DecidableEq

namespace World

/-- The `i`-th map. -/
def map (w : World K V) (i : Nat) : Option (Map K V) :=
  (w.maps[i]?).map fun o => { o with heap := w.heap }

/-- The world with another `i`-th map. -/
def put (w : World K V) (i : Nat) (m : Map K V) : World K V :=
  { heap := m.heap, maps := w.maps.set i m.toMapObj }

/-- An iterator that is handed to `Erase` points to an element of the map. -/
def Enabled (w : World K V) : Act K V → Prop
  | .eraseAt i position => ∀ m, w.map i = some m → m.Element position
  | _ => True

section
variable (compare : K → K → Bool) [Inhabited K] [Inhabited V]

/-- A step. A call on a map that does not exist is no step at all. -/
def step (w : World K V) : Act K V → Except Fault (World K V)
  | .construct =>
    let m : Map K V := Map.construct w.heap
    .ok { heap := m.heap, maps := w.maps ++ [m.toMapObj] }
  | .call i op =>
    match w.map i with
    | none => .ok w
    | some m => do
      let (_, m) ← m.exec compare op
      return w.put i m
  | .eraseAt i position =>
    match w.map i with
    | none => .ok w
    | some m => do
      let (_, m) ← m.eraseAt position
      return w.put i m

/-- A world that steps can produce from a memory without maps. -/
inductive Reachable : World K V → Prop where
  | start (h : Heap K V) : Reachable { heap := h, maps := [] }
  | step {w w' : World K V} (a : Act K V) :
      Reachable w → w.Enabled a → w.step compare a = .ok w' → Reachable w'

end

end World

end KernelEventsTrace.Driver.Std
