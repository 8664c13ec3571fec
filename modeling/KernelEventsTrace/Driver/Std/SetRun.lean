import KernelEventsTrace.Driver.Std.MapIterator
import KernelEventsTrace.Driver.Std.Set

/-!
# `KernelEventsTrace.Driver.Std.SetRun`: the same calls on a `Map` and on a `Set`

`Call` is a call that both containers have. `Map.call` and `Set.call` run it and report what the
caller gets. `readTree` is the tree below a node as the memory has it: at every node its
address, its key and its colour.
-/

set_option autoImplicit false

namespace KernelEventsTrace.Driver.Std

open KernelEventsTrace.RedBlack (RbTree)

/-- A call of a member function that `Map` and `Set` have. A `Set` has no use for `val`. -/
inductive Call (K V : Type) where
  | insert (key : K) (val : V)
  | erase (key : K)
  | clear
  | find (key : K)
  | count (key : K)
  | lowerBound (key : K)
  | upperBound (key : K)
  deriving Repr, DecidableEq

/-- What the caller gets back. -/
inductive Answer where
  | inserted (it : Iterator) (isNew : Bool)
  | number (n : Nat)
  | iterator (it : Iterator)
  | done
  deriving Repr, DecidableEq

variable {K V : Type}

namespace Map

/-- A call on a map. -/
def call (compare : K → K → Bool) (m : Map K V) : Call K V → Except Fault (Answer × Map K V)
  | .insert key val => do
    let (it, isNew, m) ← m.insert compare key val
    return (.inserted it isNew, m)
  | .erase key => do
    let (n, m) ← m.erase compare key
    return (.number n, m)
  | .clear => do
    let m ← m.clear
    return (.done, m)
  | .find key => do
    let it ← m.find compare key
    return (.iterator it, m)
  | .count key => do
    let n ← m.count compare key
    return (.number n, m)
  | .lowerBound key => do
    let it ← m.lowerBound compare key
    return (.iterator it, m)
  | .upperBound key => do
    let it ← m.upperBound compare key
    return (.iterator it, m)

/-- A sequence of calls, with the answers in order. -/
def callAll (compare : K → K → Bool) (m : Map K V) :
    List (Call K V) → Except Fault (List Answer × Map K V)
  | [] => return ([], m)
  | c :: cs => do
    let (a, m) ← m.call compare c
    let (as, m) ← callAll compare m cs
    return (a :: as, m)

/-- The tree below `p`, to the depth `fuel`. -/
def readTree : Nat → Map K V → Ptr → Except Fault (RbTree (Ptr × K))
  | 0, _, _ => .error .fuel
  | fuel + 1, m, p => do
    if p = m.nil then return .nil
    else
      let n ← m.node p
      let l ← readTree fuel m n.left
      let r ← readTree fuel m n.right
      return .node n.isRed l (p, n.key) r

end Map

namespace Set

/-- A call on a set. -/
def call (compare : K → K → Bool) (s : Set K) : Call K V → Except Fault (Answer × Set K)
  | .insert key _ => do
    let (it, isNew, s) ← s.insert compare key
    return (.inserted it isNew, s)
  | .erase key => do
    let (n, s) ← s.erase compare key
    return (.number n, s)
  | .clear => do
    let s ← s.clear
    return (.done, s)
  | .find key => do
    let it ← s.find compare key
    return (.iterator it, s)
  | .count key => do
    let n ← s.count compare key
    return (.number n, s)
  | .lowerBound key => do
    let it ← s.lowerBound compare key
    return (.iterator it, s)
  | .upperBound key => do
    let it ← s.upperBound compare key
    return (.iterator it, s)

/-- A sequence of calls, with the answers in order. -/
def callAll (compare : K → K → Bool) (s : Set K) :
    List (Call K V) → Except Fault (List Answer × Set K)
  | [] => return ([], s)
  | c :: cs => do
    let (a, s) ← s.call compare c
    let (as, s) ← callAll compare s cs
    return (a :: as, s)

/-- The tree below `p`, to the depth `fuel`. -/
def readTree : Nat → Set K → Ptr → Except Fault (RbTree (Ptr × K))
  | 0, _, _ => .error .fuel
  | fuel + 1, s, p => do
    if p = s.nil then return .nil
    else
      let n ← s.node p
      let l ← readTree fuel s n.left
      let r ← readTree fuel s n.right
      return .node n.isRed l (p, n.key) r

end Set

end KernelEventsTrace.Driver.Std
