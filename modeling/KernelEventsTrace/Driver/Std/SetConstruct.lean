import KernelEventsTrace.Driver.Std.Set

/-!
# `KernelEventsTrace.Driver.Std.SetConstruct`: sets from a range of keys

The constructors of `Set<Key, Compare>` in `driver/std/set/set.h`, for the default `Compare`, which
is a pointer to a function. Here `compare_` is a data member that can be null, and a call of it can
fail. `insertBy` is `Insert` with such a member. The rest of the tree code calls no comparison and
is that of `Set`.

A range and an `InitializerList` are the list of their keys.
-/

set_option autoImplicit false

namespace KernelEventsTrace.Driver.Std

variable {K : Type}

/-- A `Compare` that is a pointer to a function. -/
abbrev Comparator (K : Type) := Option (K → K → Bool)

namespace Comparator

/-- `compare_(a, b)`. -/
def call (compare : Comparator K) (a b : K) : Except Fault Bool :=
  match compare with
  | some f => .ok (f a b)
  | none => .error .deref

/-- `key_compare()`: the value of a pointer that is not initialised with another one. -/
def keyCompare : Comparator K := none

/-- `DefaultCompare`. -/
def defaultCompare [LT K] [DecidableLT K] : Comparator K := some fun a b => decide (a < b)

end Comparator

namespace Set

section
variable (compare : Comparator K)

/-- The search loop of `Insert`. -/
def searchLoopBy : Nat → Set K → K → Ptr → Ptr → Except Fault Map.Search
  | 0, _, _, _, _ => .error .fuel
  | fuel + 1, s, val, x, y => do
    if x ≠ s.nil then
      let n ← s.node x
      if ← compare.call val n.key then searchLoopBy fuel s val n.left x
      else if ← compare.call n.key val then searchLoopBy fuel s val n.right x
      else return .found x
    else return .absent y

/-- `z` becomes the root, or the child of `y` on the side that its key belongs to. -/
def linkBelowBy (s : Set K) (z y : Ptr) : Except Fault (Set K) := do
  if y = s.nil then return { s with root := z }
  else if ← compare.call (← s.node z).key (← s.node y).key then s.setLeft y z
  else s.setRight y z

/-- The second half of `Insert`. -/
def attachBy (s : Set K) (z y : Ptr) : Except Fault (Set K) := do
  let s ← s.setParent z y
  let s ← linkBelowBy compare s z y
  let s ← s.setLeft z s.nil
  let s ← s.setRight z s.nil
  let s ← s.setRed z true
  let s ← s.insertFixup z
  return { s with size := s.size + 1 }

/-- `Insert(val)`. -/
def insertBy (s : Set K) (val : K) : Except Fault (Iterator × Bool × Set K) := do
  let (z, s) := s.newNode val
  match ← searchLoopBy compare s.fuel s val s.root s.nil with
  | .found x =>
    let s ← s.deleteNode z
    return (x, false, s)
  | .absent y =>
    let s ← s.attachBy compare z y
    return (z, true, s)

end

end Set

/-- A `Set` object with its member `compare_`. -/
structure OrderedSet (K : Type) extends Set K where
  compare : Comparator K

namespace OrderedSet

/-- `Insert(val)`. -/
def insert (s : OrderedSet K) (val : K) : Except Fault (OrderedSet K) := do
  let (_, _, t) ← s.toSet.insertBy s.compare val
  return { s with toSet := t }

/-- `Insert(first, last)`. -/
def insertRange (s : OrderedSet K) (keys : List K) : Except Fault (OrderedSet K) :=
  keys.foldlM insert s

variable [Inhabited K]

/-- `Set()`. -/
def construct [LT K] [DecidableLT K] (h : Heap K Unit) : OrderedSet K :=
  ⟨Set.construct h, .defaultCompare⟩

/-- `Set(comp)`. -/
def constructBy (comp : Comparator K) (h : Heap K Unit) : OrderedSet K := ⟨Set.construct h, comp⟩

/-- `Set(first, last, comp)`. -/
def constructRange (h : Heap K Unit) (keys : List K) (comp : Comparator K := .keyCompare) :
    Except Fault (OrderedSet K) :=
  (constructBy comp h).insertRange keys

/-- `Set(il, comp)`. -/
def constructList (h : Heap K Unit) (il : List K) (comp : Comparator K := .keyCompare) :
    Except Fault (OrderedSet K) :=
  (constructBy comp h).insertRange il

/-- `Set(first, last, alloc)`. -/
def constructRangeAlloc [LT K] [DecidableLT K] (h : Heap K Unit) (keys : List K) :
    Except Fault (OrderedSet K) :=
  (construct h).insertRange keys

end OrderedSet

end KernelEventsTrace.Driver.Std
