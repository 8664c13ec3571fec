import KernelEventsTrace.Driver.Std.Kmp
import KernelEventsTrace.Driver.Std.StringObj
import KernelEventsTrace.Lib.Compare

/-!
# `KernelEventsTrace.Driver.Std.StringCompare`: comparison and search of strings

The member functions of `String<T>` that compare two strings or look for one in the other
(`driver/std/string/string.h`), and `Clear`.

A `StringCall` is a call of a member function that makes or changes a string. A string is
`Reachable` if it occurs in some program that makes such calls, from no strings at all.
-/

set_option autoImplicit false

namespace KernelEventsTrace.Driver.Std

open KernelEventsTrace (BufferFault Buffer)

namespace StringObj

variable {α : Type}

section
variable [DecidableEq α]

/-- The comparison of two arrays, behind the test for null pointers. -/
def compareArrays (a b : Buffer α) (off n : Nat) : Except BufferFault Bool :=
  if a = .null ∨ b = .null then .ok false else Buffer.compareFrom a b off n 0

/-- `IsPrefixOf`. -/
def isPrefixOf (self str : StringObj α) : Except BufferFault Bool :=
  if self.size > str.size then .ok false
  else compareArrays self.elements str.elements 0 self.size

/-- `HasPrefix`. -/
def hasPrefix (self str : StringObj α) : Except BufferFault Bool :=
  if self.size < str.size then .ok false
  else compareArrays self.elements str.elements 0 str.size

/-- `IsSuffixOf`. -/
def isSuffixOf (self str : StringObj α) : Except BufferFault Bool :=
  if self.size > str.size then .ok false
  else compareArrays self.elements str.elements (str.size - self.size) self.size

/-- `HasSuffix`. The index of the end belongs to the string that is looked for. -/
def hasSuffix (self str : StringObj α) : Except BufferFault Bool :=
  if self.size < str.size then .ok false
  else compareArrays self.elements str.elements (self.size - str.size) str.size

/-- `operator==`. -/
def equals (self str : StringObj α) : Except BufferFault Bool :=
  if self.size ≠ str.size then .ok false
  else compareArrays self.elements str.elements 0 self.size

/-- `Find`, with a bound on the rounds of each loop. -/
def find (rounds : Nat) (pool : Pool) (self str : StringObj α) :
    Except BufferFault (Option Nat) :=
  if self.size < str.size then .ok (some notFound)
  else if self.elements = .null ∨ str.elements = .null then .ok (some notFound)
  else do
    let matcher ←
      KmpMatcher.construct rounds pool self.elements self.size str.elements str.size
    match matcher with
    | none => return none
    | some matcher => matcher.kmpSearch rounds

end

/-- `Clear`. -/
def clear [Inhabited α] (self : StringObj α) : Except BufferFault (StringObj α) := do
  let elements ← fillCells 0 self.size self.elements
  return ⟨0, elements, sizeT (self.space + self.size)⟩

end StringObj

/-- A call of a member function that makes or changes a string. -/
inductive StringCall (α : Type) where
  | op (op : StringOp α)
  | clear (i : Nat)
  deriving Repr, DecidableEq

section
variable {α : Type} [inst : Inhabited α] [DecidableEq α] (T : ElementType α inst) (pool : Pool)

/-- The strings after a call. -/
def stepCall (ss : List (StringObj α)) :
    StringCall α → Except BufferFault (List (StringObj α))
  | .op op => stepStrings T pool ss op
  | .clear i => onString ss i fun s => s.clear

/-- The strings after a sequence of calls, from none. -/
def runCalls (calls : List (StringCall α)) : Except BufferFault (List (StringObj α)) :=
  calls.foldlM (stepCall T pool) []

/-- The string occurs in some program. -/
def StringObj.Reachable (s : StringObj α) : Prop :=
  ∃ calls ss, runCalls T pool calls = .ok ss ∧ s ∈ ss

end

end KernelEventsTrace.Driver.Std
