import Mathlib.Data.Finset.Card

/-!
# `KernelEventsTrace.Driver.Std.SharedPtr`: pointers that share an object

`SharedPtr<T>` of `driver/std/memory/sharedptr.h`, statement by statement. The memory has a list of
objects, one of counters and one of handles, and an address is an index of its list. `new` appends,
so an address is never handed out twice. `delete` and the end of a handle empty a cell, and an
access to an empty cell is a fault. So is a counter outside the range of `int`.

An object may have handles among its members. Its destructor destroys them, the last one first, and
that may delete more objects. `release` and the destructor call each other in this way, with a bound
on the depth.

`State` is a program with several handles. `raw` has the pointers that the program got from `new`
and did not give to a handle yet.
-/

set_option autoImplicit false

namespace KernelEventsTrace.Driver.Std

/-- Why a program with handles stops. -/
inductive PtrFault where
  /-- A null pointer was dereferenced. -/
  | null
  /-- An object or a counter was used, or deleted, that does not exist any more. -/
  | deleted
  /-- An `int` left its range. -/
  | overflow
  /-- A handle was used that does not exist, or not any more. -/
  | handle
  /-- The destructors were nested deeper than the bound. -/
  | depth
  deriving Repr, DecidableEq

/-- The data members of `SharedPtr<T>`. -/
structure SharedPtr where
  ptr_ : Option Nat := none
  count_ : Option Nat := none
  deriving Repr, DecidableEq

/-- An object, with the addresses of the handles among its members in the order of their
construction. -/
structure SharedObject (T : Type) where
  value : T
  members : List Nat
  deriving Repr, DecidableEq

/-- The memory that handles lie in and refer to. `deleted` lists the objects in the order of their
destruction. -/
structure SharedMemory (T : Type) where
  objects : List (Option (SharedObject T)) := []
  counters : List (Option Int) := []
  handles : List (Option SharedPtr) := []
  deleted : List Nat := []
  deriving Repr, DecidableEq

variable {T : Type}

/-- The value of an `int` expression. -/
def intValue (n : Int) : Except PtrFault Int :=
  if -2147483648 ≤ n ∧ n ≤ 2147483647 then .ok n else .error .overflow

/-- The content of the cell at an address, if it exists. -/
def cellOf {α : Type} (cells : List (Option α)) (p : Nat) : Option α := cells[p]?.join

/-- An access to the cell at an address. -/
def cellAt {α : Type} (fault : PtrFault) (cells : List (Option α)) (p : Nat) :
    Except PtrFault α :=
  match cellOf cells p with
  | some a => .ok a
  | none => .error fault

namespace SharedMemory

/-- `new T(value)`. The handles among the members are null. -/
def newObject (m : SharedMemory T) (value : T) (members : Nat) : Nat × SharedMemory T :=
  (m.objects.length,
    { m with objects := m.objects ++ [some ⟨value, List.range' m.handles.length members⟩]
             handles := m.handles ++ List.replicate members (some {}) })

/-- `new int(n)`. -/
def newCounter (m : SharedMemory T) (n : Int) : Nat × SharedMemory T :=
  (m.counters.length, { m with counters := m.counters ++ [some n] })

/-- A handle at a new address. -/
def newHandle (m : SharedMemory T) (h : SharedPtr) : SharedMemory T :=
  { m with handles := m.handles ++ [some h] }

/-- The handle at an address. -/
def handleAt (m : SharedMemory T) (i : Nat) : Except PtrFault SharedPtr :=
  cellAt .handle m.handles i

/-- Writes the handle at an address, or takes it away. -/
def setHandle (m : SharedMemory T) (i : Nat) (h : Option SharedPtr) : SharedMemory T :=
  { m with handles := m.handles.set i h }

/-- `*count = *count + d`. -/
def addTo (m : SharedMemory T) (count : Nat) (d : Int) : Except PtrFault (SharedMemory T) := do
  let n ← intValue ((← cellAt .deleted m.counters count) + d)
  return { m with counters := m.counters.set count (some n) }

/-- `delete ptr`, which does nothing for a null pointer. The destructor of the object comes
first. -/
def deleteObject (destroy : SharedMemory T → Nat → Except PtrFault (SharedMemory T))
    (m : SharedMemory T) : Option Nat → Except PtrFault (SharedMemory T)
  | none => .ok m
  | some p => do
    let object ← cellAt .deleted m.objects p
    let m ← object.members.reverse.foldlM destroy m
    let _ ← cellAt .deleted m.objects p
    return { m with objects := m.objects.set p none, deleted := m.deleted ++ [p] }

/-- `delete count`. -/
def deleteCounter (m : SharedMemory T) : Option Nat → Except PtrFault (SharedMemory T)
  | none => .ok m
  | some count => do
    let _ ← cellAt .deleted m.counters count
    return { m with counters := m.counters.set count none }

/-- `Release` of the handle at an address. The object that it deletes may hold this handle, so
`count_` is read again. -/
def release : Nat → SharedMemory T → Nat → Except PtrFault (SharedMemory T)
  | 0, _, _ => .error .depth
  | depth + 1, m, this => do
    let h ← m.handleAt this
    match h.count_ with
    | none => return m
    | some count =>
      let m ← m.addTo count (-1)
      if (← cellAt .deleted m.counters count) = 0 then
        let destroy := fun (m : SharedMemory T) i => do
          return (← release depth m i).setHandle i none
        let m ← m.deleteObject destroy h.ptr_
        let m ← m.deleteCounter (← m.handleAt this).count_
        return m.setHandle this (some {})
      else
        return m

/-- `~SharedPtr()`. -/
def destroy (depth : Nat) (m : SharedMemory T) (this : Nat) :
    Except PtrFault (SharedMemory T) := do
  return (← m.release depth this).setHandle this none

/-- `if (count_ != nullptr) (*count_)++`. -/
def acquire (m : SharedMemory T) (h : SharedPtr) : Except PtrFault (SharedMemory T) :=
  match h.count_ with
  | none => .ok m
  | some count => m.addTo count 1

/-- Each object is deleted once at most, so destructors are not nested deeper. -/
def maxDepth (m : SharedMemory T) : Nat := m.objects.length + 1

/-- The addresses of the handles that exist. -/
def live (m : SharedMemory T) : Finset Nat :=
  (Finset.range m.handles.length).filter fun i => (cellOf m.handles i).isSome

/-- The object that a handle points to. -/
def ptrAt (m : SharedMemory T) (i : Nat) : Option Nat := (cellOf m.handles i).bind (·.ptr_)

/-- The counter that a handle refers to. -/
def countAt (m : SharedMemory T) (i : Nat) : Option Nat := (cellOf m.handles i).bind (·.count_)

end SharedMemory

namespace SharedPtr

/-- `SharedPtr(T* ptr)`. -/
def construct (m : SharedMemory T) : Option Nat → SharedMemory T
  | none => m.newHandle {}
  | some ptr =>
    let (count, m) := m.newCounter 1
    m.newHandle ⟨some ptr, some count⟩

/-- `SharedPtr(const SharedPtr& other)`. -/
def copyConstruct (m : SharedMemory T) (other : Nat) : Except PtrFault (SharedMemory T) := do
  let h ← m.handleAt other
  (m.newHandle h).acquire h

/-- `operator=`. The other handle is read after `Release`. -/
def assign (m : SharedMemory T) (this other : Nat) : Except PtrFault (SharedMemory T) := do
  if this ≠ other then
    let m ← m.release m.maxDepth this
    let h ← m.handleAt other
    (m.setHandle this (some h)).acquire h
  else
    return m

/-- `operator*`. -/
def deref (m : SharedMemory T) (this : Nat) : Except PtrFault T := do
  match (← m.handleAt this).ptr_ with
  | none => .error .null
  | some p => return (← cellAt .deleted m.objects p).value

/-- `count`. -/
def count (m : SharedMemory T) (this : Nat) : Except PtrFault Int := do
  match (← m.handleAt this).count_ with
  | none => return 0
  | some count => cellAt .deleted m.counters count

/-! ### Programs -/

/-- A program with handles. -/
structure State (T : Type) where
  memory : SharedMemory T := {}
  raw : List Nat := []
  deriving Repr, DecidableEq

/-- What a program does with handles. It names a handle by its address, also a member of an
object. -/
inductive Op (T : Type) where
  /-- `new T(value)` of a type with so many handles among its members. -/
  | new (value : T) (members : Nat)
  /-- A handle is constructed from a pointer. -/
  | construct (ptr : Option Nat)
  /-- A handle is constructed from another one. -/
  | copyConstruct (other : Nat)
  /-- `operator=`. -/
  | assign (this other : Nat)
  /-- The destructor of a handle that is no member of an object. -/
  | destroy (this : Nat)
  deriving Repr, DecidableEq

namespace State

/-- The number of handles that point to an object. -/
def handlesTo (s : State T) (o : Nat) : Nat :=
  (s.memory.live.filter fun i => s.memory.ptrAt i = some o).card

/-- One step of a program. -/
def step (s : State T) : Op T → Except PtrFault (State T)
  | .new value members =>
    let (p, m) := s.memory.newObject value members
    .ok ⟨m, s.raw ++ [p]⟩
  | .construct ptr => .ok ⟨SharedPtr.construct s.memory ptr, s.raw.filter fun p => ptr ≠ some p⟩
  | .copyConstruct other => do return { s with memory := ← SharedPtr.copyConstruct s.memory other }
  | .assign this other => do
    let _ ← s.memory.handleAt this
    return { s with memory := ← SharedPtr.assign s.memory this other }
  | .destroy this => do
    return { s with memory := ← s.memory.destroy s.memory.maxDepth this }

/-- The steps of a program, from the first one on. -/
def run (s : State T) (ops : List (Op T)) : Except PtrFault (State T) := ops.foldlM step s

/-- The handle is a member of an object. -/
def MemberOf (s : State T) (i o : Nat) : Prop :=
  ∃ object, cellOf s.memory.objects o = some object ∧ i ∈ object.members

/-- There may be `n` more handles: there will be fewer than 2 ^ 31. -/
def Room (s : State T) (n : Nat) : Prop := s.memory.live.card + n < 2147483648

/-- The numbers are compared. -/
instance (s : State T) (n : Nat) : Decidable (s.Room n) :=
  inferInstanceAs (Decidable (s.memory.live.card + n < 2147483648))

/-- The program may take the step. It uses handles that exist, gives a pointer to at most one
handle, destroys no members of objects, and has fewer than 2 ^ 31 handles. -/
def Allows (s : State T) : Op T → Prop
  | .new _ members => s.Room members
  | .construct ptr => (∀ p, ptr = some p → p ∈ s.raw) ∧ s.Room 1
  | .copyConstruct other => other ∈ s.memory.live ∧ s.Room 1
  | .assign this other => this ∈ s.memory.live ∧ other ∈ s.memory.live
  | .destroy this => this ∈ s.memory.live ∧ ∀ o, ¬ s.MemberOf this o

/-- Every step meets its condition, in the state before it. -/
def MeetsAll (P : State T → Op T → Prop) : State T → List (Op T) → Prop
  | _, [] => True
  | s, op :: ops => P s op ∧ ∀ s', s.step op = .ok s' → s'.MeetsAll P ops

/-- The object loses its last handle when the handle `this` is released: every handle that points to
it is `this`, or a member of an object that loses its last handle in this way. -/
inductive Falls (s : State T) (this : Nat) : Nat → Prop where
  | intro {o : Nat} : 0 < s.handlesTo o →
      (∀ i, i ∈ s.memory.live → s.memory.ptrAt i = some o → i ≠ this → ∃ o', s.MemberOf i o') →
      (∀ i o', i ∈ s.memory.live → s.memory.ptrAt i = some o → i ≠ this → s.MemberOf i o' →
        Falls s this o') → Falls s this o

/-- An assignment reads a handle, and writes one, that its own `Release` does not destroy. -/
def Keeps (s : State T) : Op T → Prop
  | .assign this other => this ≠ other → ∀ o, s.Falls this o →
      ¬ s.MemberOf this o ∧ ¬ s.MemberOf other o
  | _ => True

end State

end SharedPtr

end KernelEventsTrace.Driver.Std
