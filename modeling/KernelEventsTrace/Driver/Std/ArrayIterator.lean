import KernelEventsTrace.Driver.Std.StringObj
import KernelEventsTrace.Driver.Std.Vector

/-!
# `KernelEventsTrace.Driver.Std.ArrayIterator`: the iterators of `Vector` and `String`

`Vector<T>::iterator` and `String<T>::iterator` are the same class twice: a pointer into the array.
Two iterators are compared by what they point to, so a comparison reads both positions.

`forEach` is the loop that a caller writes over a container. It keeps a record of the positions
that the body was run for and of those that were read by the test of the loop.
-/

set_option autoImplicit false

namespace KernelEventsTrace.Driver.Std

open KernelEventsTrace (BufferFault Buffer)

/-- An iterator: the array that `curr_` points into, and the position in it. -/
structure ArrayIterator (α : Type) where
  array : Buffer α
  curr : Nat
  deriving Repr, DecidableEq

/-- The record of a loop. -/
structure Trace where
  visited : List Nat
  touched : List Nat
  deriving Repr, DecidableEq

namespace ArrayIterator

variable {α : Type}

/-- `operator++`. -/
def next (it : ArrayIterator α) : ArrayIterator α := { it with curr := it.curr + 1 }

/-- `operator*`. -/
def deref (it : ArrayIterator α) : Except BufferFault α := it.array.read it.curr

variable [DecidableEq α]

/-- `operator!=`. -/
def notEqual (it b : ArrayIterator α) : Except BufferFault Bool := do
  return decide ((← it.deref) ≠ (← b.deref))

/-- `for (; it != last; ++it)`, for at most as many tests as the first argument says. -/
def forEach : Nat → ArrayIterator α → ArrayIterator α → Trace → Except BufferFault (Option Trace)
  | 0, _, _, _ => .ok none
  | tests + 1, it, last, t => do
    let goes ← it.notEqual last
    let t := { t with touched := t.touched ++ [it.curr, last.curr] }
    if goes then forEach tests it.next last { t with visited := t.visited ++ [it.curr] }
    else return some t

end ArrayIterator

namespace VectorObj

variable {α : Type} (self : VectorObj α)

/-- `Begin()`. -/
def beginIt : ArrayIterator α := ⟨self.elements, 0⟩

/-- `End()`. -/
def endIt : ArrayIterator α := ⟨self.elements, self.size⟩

end VectorObj

namespace StringObj

variable {α : Type} (self : StringObj α)

/-- `Begin()`. -/
def beginIt : ArrayIterator α := ⟨self.elements, 0⟩

/-- `End()`. -/
def endIt : ArrayIterator α := ⟨self.elements, self.size⟩

end StringObj

end KernelEventsTrace.Driver.Std
