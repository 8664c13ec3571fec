import KernelEventsTrace.Lib.Buffer
import Mathlib.Algebra.Group.Nat.Defs

/-!
# `KernelEventsTrace.Driver.Std.Pool`: `operator new[]` of the driver

`driver/std/memory/memory.cpp`. `operator new[]` calls `ExAllocatePool2` until it gets the
memory, so it never returns a null pointer, and never returns at all when there is not enough.
The memory is filled with zeros. `T()` is `default`.
-/

set_option autoImplicit false

namespace KernelEventsTrace.Driver.Std

/-- The memory pool, by the greatest number of elements that one allocation can have. The pool
lies in the upper half of the address space. -/
structure Pool where
  limit : Nat
  limit_lt : limit < 2 ^ 63

/-- The value of an expression of the type `size_t`. -/
def sizeT (n : Nat) : Nat := n % 2 ^ 64

/-- A number that a `size_t` can be is not wrapped. -/
theorem sizeT_of_lt {n : Nat} (h : n < 2 ^ 64) : sizeT n = n := Nat.mod_eq_of_lt h

namespace Pool

variable {α : Type} [Inhabited α]

/-- `new T[n]`. -/
def allocate (pool : Pool) (n : Nat) : Except BufferFault (Buffer α) :=
  if n ≤ pool.limit then .ok (.array (List.replicate n default)) else .error .noMemory

/-- Up to its limit the pool gives an array. -/
theorem allocate_of_le {pool : Pool} {n : Nat} (h : n ≤ pool.limit) :
    pool.allocate n = .ok (.array (List.replicate n (default : α))) := if_pos h

/-- Above its limit the pool gives nothing. -/
theorem allocate_of_lt {pool : Pool} {n : Nat} (h : pool.limit < n) :
    (pool.allocate n : Except BufferFault (Buffer α)) = .error .noMemory :=
  if_neg (Nat.not_le.mpr h)

end Pool

end KernelEventsTrace.Driver.Std
