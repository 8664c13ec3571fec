import KernelEventsTrace.Driver.Std.SetRun
import Mathlib.Logic.Function.Basic

/-!
# `KernelEventsTrace.Driver.Std.SetIterator`: programs that use a `Set` and its iterators

The bidirectional iterator of `driver/std/set/set.h`, its `ReverseIterator`, and `EqualRange`.

A caller has one set and any number of variables. A variable has an iterator, or the base of a
reverse iterator. `SetProgram.step` runs one statement of a caller, and `SetProgram.run` a sequence
of them.
-/

set_option autoImplicit false

namespace KernelEventsTrace.Driver.Std

variable {K : Type}

namespace Set

/-- The loop of `Maximum`. -/
def maximumLoop : Nat → Set K → Ptr → Except Fault Ptr
  | 0, _, _ => .error .fuel
  | fuel + 1, s, p => do
    let r := (← s.node p).right
    if r ≠ s.nil then maximumLoop fuel s r else return p

/-- `Maximum`. -/
def maximum (s : Set K) (p : Ptr) : Except Fault Ptr := maximumLoop s.fuel s p

/-- The loop of `Successor`. -/
def successorLoop : Nat → Set K → Ptr → Ptr → Except Fault Ptr
  | 0, _, _, _ => .error .fuel
  | fuel + 1, s, p, y => do
    if y ≠ s.nil then
      if p = (← s.node y).right then
        successorLoop fuel s y (← s.node y).parent
      else return y
    else return y

/-- `Successor`. -/
def successor (s : Set K) (p : Ptr) : Except Fault Ptr := do
  let r := (← s.node p).right
  if r ≠ s.nil then s.minimum r
  else successorLoop s.fuel s p (← s.node p).parent

/-- The loop of `Predecessor`. -/
def predecessorLoop : Nat → Set K → Ptr → Ptr → Except Fault Ptr
  | 0, _, _, _ => .error .fuel
  | fuel + 1, s, p, y => do
    if y ≠ s.nil then
      if p = (← s.node y).left then
        predecessorLoop fuel s y (← s.node y).parent
      else return y
    else return y

/-- `Predecessor`. -/
def predecessor (s : Set K) (p : Ptr) : Except Fault Ptr := do
  let l := (← s.node p).left
  if l ≠ s.nil then s.maximum l
  else predecessorLoop s.fuel s p (← s.node p).parent

/-- `Begin()`. -/
def begin' (s : Set K) : Except Fault Iterator := s.minimum s.root

/-- `++it`. -/
def increment (s : Set K) (it : Iterator) : Except Fault Iterator :=
  if it = s.nil then .ok it else s.successor it

/-- `--it`. -/
def decrement (s : Set K) (it : Iterator) : Except Fault Iterator :=
  if it = s.nil then s.maximum s.root else s.predecessor it

/-- `*it`. The sentinel has a key, too. -/
def deref (s : Set K) (it : Iterator) : Except Fault K := do
  return (← s.node it).key

/-- `RBegin()`. -/
def rBegin (s : Set K) : ReverseIterator := ⟨s.endIt⟩

/-- `REnd()`. -/
def rEnd (s : Set K) : Except Fault ReverseIterator := do
  return ⟨← s.begin'⟩

/-- `*rit`. -/
def reverseDeref (s : Set K) (rit : ReverseIterator) : Except Fault K := do
  s.deref (← s.decrement rit.base)

/-- `++rit`. -/
def reverseIncrement (s : Set K) (rit : ReverseIterator) : Except Fault ReverseIterator := do
  return ⟨← s.decrement rit.base⟩

/-- `--rit`. -/
def reverseDecrement (s : Set K) (rit : ReverseIterator) : Except Fault ReverseIterator := do
  return ⟨← s.increment rit.base⟩

/-- The loop of `Erase(first, last)`. -/
def eraseLoop (last : Iterator) : Nat → Set K → Iterator → Except Fault (Set K)
  | 0, _, _ => .error .fuel
  | fuel + 1, s, first => do
    if first ≠ last then
      let (first, s) ← s.eraseAt first
      eraseLoop last fuel s first
    else return s

/-- `Erase(first, last)`. A round that does not erase a member is the last but one. -/
def eraseRange (s : Set K) (first last : Iterator) : Except Fault (Iterator × Set K) := do
  let s ← eraseLoop last (s.size + 2) s first
  return (last, s)

/-- `EqualRange`. -/
def equalRange (compare : K → K → Bool) (s : Set K) (val : K) :
    Except Fault (Iterator × Iterator) := do
  return (← s.lowerBound compare val, ← s.upperBound compare val)

/-- `Empty()`. -/
def empty (s : Set K) : Bool := decide (s.size = 0)

end Set

/-- A statement of a caller. The iterator variables are numbered. -/
inductive Statement (K : Type) where
  | insert (i : Nat) (key : K)
  | erase (key : K)
  /-- The variable `i` gets the result of `Erase` at the iterator `j`. -/
  | eraseAt (i j : Nat)
  /-- The variable `i` gets the result of `Erase` from `j` to `k`. -/
  | eraseRange (i j k : Nat)
  | clear
  | find (i : Nat) (key : K)
  | count (key : K)
  | lowerBound (i : Nat) (key : K)
  | upperBound (i : Nat) (key : K)
  | equalRange (i j : Nat) (key : K)
  | begin' (i : Nat)
  | endIt (i : Nat)
  | assign (i j : Nat)
  | increment (i : Nat)
  | decrement (i : Nat)
  | deref (i : Nat)
  | rBegin (i : Nat)
  | rEnd (i : Nat)
  | reverseIncrement (i : Nat)
  | reverseDecrement (i : Nat)
  | reverseDeref (i : Nat)
  | equal (i j : Nat)
  | size
  | empty
  | forEach
  | forEachReverse
  deriving Repr, DecidableEq

/-- What a statement shows to the caller. -/
inductive Shown (K : Type) where
  | flag (b : Bool)
  | number (n : Nat)
  | key (k : K)
  | keys (ks : List K)
  | nothing
  deriving Repr, DecidableEq

/-- A set and the iterator variables. -/
structure SetProgram (K : Type) where
  set : Set K
  vars : Nat → Iterator

namespace SetProgram

/-- The variable `i` is assigned. -/
def store (p : SetProgram K) (i : Nat) (it : Iterator) : SetProgram K :=
  { p with vars := Function.update p.vars i it }

/-- An empty set and iterators that are `Iterator()`. -/
def start [Inhabited K] (h : Heap K Unit) : SetProgram K := ⟨Set.construct h, fun _ => nullptr⟩

section
variable (compare : K → K → Bool)

/-- A statement. -/
def step (p : SetProgram K) : Statement K → Except Fault (Shown K × SetProgram K)
  | .insert i key => do
    let (it, isNew, s) ← p.set.insert compare key
    return (.flag isNew, ({ p with set := s } : SetProgram K).store i it)
  | .erase key => do
    let (n, s) ← p.set.erase compare key
    return (.number n, { p with set := s })
  | .eraseAt i j => do
    let (it, s) ← p.set.eraseAt (p.vars j)
    return (.nothing, ({ p with set := s } : SetProgram K).store i it)
  | .eraseRange i j k => do
    let (it, s) ← p.set.eraseRange (p.vars j) (p.vars k)
    return (.nothing, ({ p with set := s } : SetProgram K).store i it)
  | .clear => do
    let s ← p.set.clear
    return (.nothing, { p with set := s })
  | .find i key => do
    let it ← p.set.find compare key
    return (.nothing, p.store i it)
  | .count key => do
    let n ← p.set.count compare key
    return (.number n, p)
  | .lowerBound i key => do
    let it ← p.set.lowerBound compare key
    return (.nothing, p.store i it)
  | .upperBound i key => do
    let it ← p.set.upperBound compare key
    return (.nothing, p.store i it)
  | .equalRange i j key => do
    let (lo, hi) ← p.set.equalRange compare key
    return (.nothing, (p.store i lo).store j hi)
  | .begin' i => do
    let it ← p.set.begin'
    return (.nothing, p.store i it)
  | .endIt i => return (.nothing, p.store i p.set.endIt)
  | .assign i j => return (.nothing, p.store i (p.vars j))
  | .increment i => do
    let it ← p.set.increment (p.vars i)
    return (.nothing, p.store i it)
  | .decrement i => do
    let it ← p.set.decrement (p.vars i)
    return (.nothing, p.store i it)
  | .deref i => do
    let k ← p.set.deref (p.vars i)
    return (.key k, p)
  | .rBegin i => return (.nothing, p.store i p.set.rBegin.base)
  | .rEnd i => do
    let rit ← p.set.rEnd
    return (.nothing, p.store i rit.base)
  | .reverseIncrement i => do
    let rit ← p.set.reverseIncrement ⟨p.vars i⟩
    return (.nothing, p.store i rit.base)
  | .reverseDecrement i => do
    let rit ← p.set.reverseDecrement ⟨p.vars i⟩
    return (.nothing, p.store i rit.base)
  | .reverseDeref i => do
    let k ← p.set.reverseDeref ⟨p.vars i⟩
    return (.key k, p)
  | .equal i j => return (.flag (decide (p.vars i = p.vars j)), p)
  | .size => return (.number p.set.size, p)
  | .empty => return (.flag p.set.empty, p)
  | .forEach => do
    let first ← p.set.begin'
    let its ← visited p.set.increment (p.set.size + 1) first p.set.endIt
    return (.keys (← its.mapM p.set.deref), p)
  | .forEachReverse => do
    let last ← p.set.rEnd
    let rits ← visited p.set.reverseIncrement (p.set.size + 1) p.set.rBegin last
    return (.keys (← rits.mapM p.set.reverseDeref), p)

/-- A program, with what its statements show. -/
def run (p : SetProgram K) : List (Statement K) → Except Fault (List (Shown K) × SetProgram K)
  | [] => return ([], p)
  | c :: cs => do
    let (a, p) ← p.step compare c
    let (as, p) ← run p cs
    return (a :: as, p)

end

end SetProgram

end KernelEventsTrace.Driver.Std
