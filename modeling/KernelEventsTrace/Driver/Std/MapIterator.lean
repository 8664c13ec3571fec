import KernelEventsTrace.Driver.Std.MapRun

/-!
# `KernelEventsTrace.Driver.Std.MapIterator`: iterators and ordered queries

The bidirectional iterator of `driver/std/map/map.h`, the `ReverseIterator` of
`driver/std/iterator/iterator.h`, and `LowerBound`, `UpperBound` and `EqualRange`.

`visited` is the loop that a caller writes over an iterator range. It works for both kinds of
iterators.
-/

set_option autoImplicit false

namespace KernelEventsTrace.Driver.Std

variable {K V : Type}

/-- The positions that `for (it = first; it != last; ++it)` visits, with `next` for `++`, in at
most `fuel` rounds. -/
def visited {I : Type} [DecidableEq I] (next : I → Except Fault I) :
    Nat → I → I → Except Fault (List I)
  | 0, _, _ => .error .fuel
  | fuel + 1, first, last => do
    if first ≠ last then
      let its ← visited next fuel (← next first) last
      return first :: its
    else return []

/-- `ReverseIterator<iterator>`: a view of the position in front of `base`. -/
structure ReverseIterator where
  base : Iterator
  deriving Repr, DecidableEq

namespace Map

/-- `--it`. -/
def decrement (m : Map K V) (it : Iterator) : Except Fault Iterator :=
  if it = m.nil then m.maximum m.root else m.predecessor it

/-- `RBegin()`. -/
def rBegin (m : Map K V) : ReverseIterator := ⟨m.endIt⟩

/-- `REnd()`. -/
def rEnd (m : Map K V) : Except Fault ReverseIterator := do
  return ⟨← m.begin'⟩

/-- `*rit`: what a copy of the base shows after it goes one back. -/
def reverseDeref (m : Map K V) (rit : ReverseIterator) : Except Fault (Option (K × V)) := do
  m.deref (← m.decrement rit.base)

/-- `++rit`. -/
def reverseIncrement (m : Map K V) (rit : ReverseIterator) : Except Fault ReverseIterator := do
  return ⟨← m.decrement rit.base⟩

/-- `--rit`. -/
def reverseDecrement (m : Map K V) (rit : ReverseIterator) : Except Fault ReverseIterator := do
  return ⟨← m.increment rit.base⟩

/-- The loop of `LowerBound` and `UpperBound`: `goLeft` says of a key whether its node becomes
the result. -/
def boundLoop (goLeft : K → Bool) : Nat → Map K V → Ptr → Ptr → Except Fault Ptr
  | 0, _, _, _ => .error .fuel
  | fuel + 1, m, current, result => do
    if current ≠ m.nil then
      let n ← m.node current
      if goLeft n.key then boundLoop goLeft fuel m n.left current
      else boundLoop goLeft fuel m n.right result
    else return result

section
variable (compare : K → K → Bool)

/-- `LowerBound`. -/
def lowerBound (m : Map K V) (key : K) : Except Fault Iterator :=
  boundLoop (fun k => !compare k key) m.fuel m m.root m.nil

/-- `UpperBound`. -/
def upperBound (m : Map K V) (key : K) : Except Fault Iterator :=
  boundLoop (fun k => compare key k) m.fuel m m.root m.nil

/-- `EqualRange`. -/
def equalRange (m : Map K V) (key : K) : Except Fault (Iterator × Iterator) := do
  return (← m.lowerBound compare key, ← m.upperBound compare key)

end

end Map

end KernelEventsTrace.Driver.Std
