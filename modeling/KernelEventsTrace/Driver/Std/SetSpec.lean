import KernelEventsTrace.Driver.Std.SetIterator
import KernelEventsTrace.Lib.OrdSet

/-!
# `KernelEventsTrace.Driver.Std.SetSpec`: what `Set` and its iterators are for

The abstract meaning of a caller's statements: the set is a finite set of keys, and an iterator is
a member of it or the end. A reverse iterator is the place behind the member that it shows.

`SetModel.step` is `none` where a caller must not be: it uses an iterator whose element was erased,
or one that `Erase` returned at a position, it dereferences `End()`, or erases a range that is not
empty. Apart from these limits of `Erase`, nothing here is taken from the code of `Set`.
-/

set_option autoImplicit false

namespace KernelEventsTrace.Driver.Std

open KernelEventsTrace.OrdMap (StrictWeak)
open KernelEventsTrace.OrdSet (FSet Cursor)

variable {K : Type} {compare : K → K → Bool}

/-- A finite set and the iterator variables. -/
structure SetModel (compare : K → K → Bool) where
  set : FSet compare
  vars : Nat → Cursor K

namespace SetModel

/-- The variable `i` is assigned. -/
def store (a : SetModel compare) (i : Nat) (c : Cursor K) : SetModel compare :=
  { a with vars := Function.update a.vars i c }

/-- The member that is equivalent to the key leaves the set. -/
def erase (a : SetModel compare) (key : K) : SetModel compare :=
  ⟨a.set.erase key, fun i => (a.vars i).leave compare key⟩

/-- An empty set, with variables that must not be used. -/
def start : SetModel compare := ⟨FSet.empty, fun _ => .gone⟩

/-- A statement. -/
def step [StrictWeak compare] (a : SetModel compare) :
    Statement K → Option (Shown K × SetModel compare)
  | .insert i key =>
    let s := a.set.insert key
    some (.flag (!a.set.contains key),
      ({ a with set := s } : SetModel compare).store i (s.find key))
  | .erase key => some (.number (if a.set.contains key then 1 else 0), a.erase key)
  | .eraseAt i j =>
    match a.vars j with
    | .on k => some (.nothing, (a.erase k).store i .gone)
    | .atEnd => some (.nothing, a.store i .gone)
    | .gone => none
  | .eraseRange i j k =>
    if (a.vars j).same compare (a.vars k) = some true then
      some (.nothing, a.store i (a.vars k))
    else none
  | .clear => some (.nothing, ⟨FSet.empty, fun i => (a.vars i).leaveAll⟩)
  | .find i key => some (.nothing, a.store i (a.set.find key))
  | .count key => some (.number (if a.set.contains key then 1 else 0), a)
  | .lowerBound i key => some (.nothing, a.store i (a.set.lowerBound key))
  | .upperBound i key => some (.nothing, a.store i (a.set.upperBound key))
  | .equalRange i j key =>
    some (.nothing, (a.store i (a.set.lowerBound key)).store j (a.set.upperBound key))
  | .begin' i => some (.nothing, a.store i a.set.first)
  | .endIt i => some (.nothing, a.store i .atEnd)
  | .assign i j => some (.nothing, a.store i (a.vars j))
  | .increment i => (a.set.next (a.vars i)).map fun c => (.nothing, a.store i c)
  | .decrement i => (a.set.prev (a.vars i)).map fun c => (.nothing, a.store i c)
  | .deref i =>
    match a.vars i with
    | .on k => some (.key k, a)
    | _ => none
  | .rBegin i => some (.nothing, a.store i .atEnd)
  | .rEnd i => some (.nothing, a.store i a.set.first)
  | .reverseIncrement i => (a.set.prev (a.vars i)).map fun c => (.nothing, a.store i c)
  | .reverseDecrement i => (a.set.next (a.vars i)).map fun c => (.nothing, a.store i c)
  | .reverseDeref i =>
    match a.set.prev (a.vars i) with
    | some (.on k) => some (.key k, a)
    | _ => none
  | .equal i j => ((a.vars i).same compare (a.vars j)).map fun b => (.flag b, a)
  | .size => some (.number a.set.keys.length, a)
  | .empty => some (.flag a.set.keys.isEmpty, a)
  | .forEach => some (.keys a.set.keys, a)
  | .forEachReverse => some (.keys a.set.keys.reverse, a)

/-- A program, with what its statements show. -/
def run [StrictWeak compare] (a : SetModel compare) :
    List (Statement K) → Option (List (Shown K) × SetModel compare)
  | [] => some ([], a)
  | c :: cs => do
    let (x, a) ← a.step c
    let (xs, a) ← run a cs
    return (x :: xs, a)

end SetModel

end KernelEventsTrace.Driver.Std
