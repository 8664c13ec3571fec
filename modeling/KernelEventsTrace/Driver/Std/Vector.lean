import KernelEventsTrace.Driver.Std.Pool
import KernelEventsTrace.Lib.Compare

/-!
# `KernelEventsTrace.Driver.Std.Vector`: the vector of the driver

`Vector<T>` of `driver/std/vector/vector.h`, statement by statement. `VectorObj` holds the data
members. `elements_` is the only pointer to its array, so the array is part of the object.
Sizes wrap around as `size_t` does.

`content` is what the vector stands for. `VectorObj.Arg` is the operand of a member function that
may be the vector itself. `VectorOp` is a call of a public member function in a program with
several vectors, and `runVectors` a sequence of such calls.
-/

set_option autoImplicit false

namespace KernelEventsTrace.Driver.Std

/-- The data members of `Vector<T>`. -/
structure VectorObj (α : Type) where
  size : Nat
  elements : Buffer α
  space : Nat
  deriving Repr, DecidableEq

namespace VectorObj

variable {α : Type}

/-- A vector operand: `*this`, or another vector. -/
inductive Arg (α : Type) where
  | self
  | other (v : VectorObj α)

/-- The operand, as it is when `*this` is `v`. -/
def Arg.get (v : VectorObj α) : Arg α → VectorObj α
  | self => v
  | other w => w

/-- The elements below `Size()`, as a list. -/
def content (v : VectorObj α) : List α := v.elements.cells.take v.size

/-- `operator[]`. -/
def index (self : VectorObj α) (i : Nat) : Except BufferFault α := self.elements.read i

section
variable [DecidableEq α]

/-- `operator==`. -/
def equals (self v : VectorObj α) : Except BufferFault Bool :=
  if self.size ≠ v.size then .ok false
  else Buffer.compareFrom self.elements v.elements 0 self.size 0

/-- `operator!=`. -/
def notEquals (self v : VectorObj α) : Except BufferFault Bool :=
  if self.size ≠ v.size then .ok true
  else (Buffer.compareFrom self.elements v.elements 0 self.size 0).map not

end

/-- `Vector()`. -/
def construct : VectorObj α := ⟨0, .null, 0⟩

section
variable [Inhabited α] (pool : Pool)

/-- `Vector(size_t)`. -/
def constructSize (s : Nat) : Except BufferFault (VectorObj α) := do
  let elements ← pool.allocate s
  let elements ← forRange 0 s (fun p index => p.write index default) elements
  return ⟨s, elements, s⟩

/-- The copy loop of the constructor, `operator=` and `Reserve`: `p[index] = v[index]`. -/
def copyElements (v : VectorObj α) (p : Buffer α) : Except BufferFault (Buffer α) :=
  forRange 0 v.size (fun p index => do p.write index (← v.elements.read index)) p

/-- The copy constructor. -/
def copyConstruct (v : VectorObj α) : Except BufferFault (VectorObj α) := do
  let elements ← v.copyElements (← pool.allocate v.size)
  return ⟨v.size, elements, v.size⟩

/-- `operator=` of another vector. The loop of the first branch returns in its first round. -/
def assignOther (self v : VectorObj α) : Except BufferFault (VectorObj α) := do
  if v.size ≤ self.space ∧ 0 < v.size then
    let elements ← self.elements.write 0 (← v.elements.read 0)
    return { self with elements := elements, size := v.size }
  else
    let p ← v.copyElements (← pool.allocate v.size)
    return ⟨v.size, p, v.size⟩

/-- `operator=`. -/
def assign (self : VectorObj α) : Arg α → Except BufferFault (VectorObj α)
  | .self => .ok self
  | .other v => self.assignOther pool v

/-- `Reserve`. -/
def reserve (self : VectorObj α) (newSize : Nat) : Except BufferFault (VectorObj α) := do
  if newSize ≤ self.space then
    return self
  else
    let p ← self.copyElements (← pool.allocate newSize)
    return { self with elements := p, space := newSize }

/-- `Resize`. The value for the new elements is not used. -/
def resize (self : VectorObj α) (newSize : Nat) (_val : α) :
    Except BufferFault (VectorObj α) := do
  let self ← self.reserve pool newSize
  let elements ← forRange self.size newSize (fun p index => p.write index default) self.elements
  return { self with elements := elements, size := newSize }

/-- `Clear`. -/
def clear (self : VectorObj α) : Except BufferFault (VectorObj α) := do
  let elements ← forRange 0 self.size (fun p index => p.write index default) self.elements
  return ⟨0, elements, sizeT (self.space + self.size)⟩

/-- The room that `PushBack` makes before it writes. -/
def growForPush (self : VectorObj α) : Except BufferFault (VectorObj α) :=
  if self.space = 0 then self.reserve pool 8
  else if self.size = self.space then self.reserve pool (sizeT (2 * self.space))
  else .ok self

/-- `PushBack`. The argument is read after `Reserve`, which deletes the old array if it makes more
room. -/
def pushBack (self : VectorObj α) (d : Buffer.Ref α) : Except BufferFault (VectorObj α) := do
  let grown ← self.growForPush pool
  let a ← d.read (self.space < grown.space) grown.elements
  let elements ← grown.elements.write grown.size a
  return { grown with elements := elements, size := sizeT (grown.size + 1) }

/-- `PopBack`. -/
def popBack (self : VectorObj α) : Except BufferFault (VectorObj α) := do
  if self.size = 0 then
    return self
  else
    let elements ← self.elements.write (self.size - 1) default
    return { self with elements := elements, size := self.size - 1 }

/-- The greater size, twice (`max(v.Size(), size_) * 2`). -/
def doubled (a b : Nat) : Nat := sizeT (max a b * 2)

/-- `Append`. After `Reserve`, an operand that is `*this` has the new array. -/
def append (self : VectorObj α) (v : Arg α) : Except BufferFault (VectorObj α) := do
  let self ← self.reserve pool (doubled (v.get self).size self.size)
  let size := (v.get self).size
  let elements ← forRange 0 size (fun p index => do
    let d ← (v.get { self with elements := p }).elements.read index
    p.write (index + self.size) d) self.elements
  return { self with elements := elements, size := sizeT (self.size + size) }

/-- `operator+`. -/
def plus (self : VectorObj α) (v : Arg α) : Except BufferFault (VectorObj α) := do
  let v := v.get self
  let res : VectorObj α := construct
  let res ← res.reserve pool (doubled v.size self.size)
  let res ← res.resize pool (sizeT (v.size + self.size)) default
  let elements ← self.copyElements res.elements
  let elements ← forRange 0 v.size (fun p index => do
    p.write (index + self.size) (← v.elements.read index)) elements
  return { res with elements := elements }

/-- `Swap`. -/
def swap (self : VectorObj α) (i j : Nat) : Except BufferFault (Bool × VectorObj α) := do
  if i ≥ self.size ∨ j ≥ self.size then
    return (false, self)
  else
    let temp ← self.elements.read i
    let elements ← self.elements.write i (← self.elements.read j)
    let elements ← elements.write j temp
    return (true, { self with elements := elements })

/-- `Erase`. The loop stops one round early. -/
def erase (self : VectorObj α) (i : Nat) : Except BufferFault (Bool × VectorObj α) := do
  if i ≥ self.size then
    return (false, self)
  else if self.size = 1 then
    let elements ← self.elements.write 0 default
    return (true, { self with elements := elements, size := self.size - 1 })
  else
    let elements ← forRange i (self.size - 2)
      (fun p index => do p.write index (← p.read (index + 1))) self.elements
    let elements ← elements.write (self.size - 1) default
    return (true, { self with elements := elements, size := self.size - 1 })

/-- `EraseUnordered`. -/
def eraseUnordered (self : VectorObj α) (i : Nat) :
    Except BufferFault (Bool × VectorObj α) := do
  if i ≥ self.size then
    return (false, self)
  else if self.size = 1 then
    let elements ← self.elements.write 0 default
    return (true, { self with elements := elements, size := self.size - 1 })
  else
    let elements ← self.elements.write i (← self.elements.read (self.size - 1))
    let elements ← elements.write (self.size - 1) default
    return (true, { self with elements := elements, size := self.size - 1 })

end

end VectorObj

/-! ### Programs that use vectors -/

/-- A call of a public member function. Vectors are numbered in the order of their
construction. A constructor and `operator+` make a new one. -/
inductive VectorOp (α : Type) where
  | construct
  | constructSize (s : UInt64)
  | copyConstruct (j : Nat)
  | assign (i j : Nat)
  | reserve (i : Nat) (newSize : UInt64)
  | resize (i : Nat) (newSize : UInt64) (val : α)
  | clear (i : Nat)
  | pushBack (i : Nat) (d : α)
  /-- `PushBack` for the vector `i`, with a reference to the element `k` of the vector `j`. If the
  call deletes that element first, `stale` is what it reads. -/
  | pushBackElement (i j : Nat) (k : UInt64) (stale : Option α)
  | popBack (i : Nat)
  | append (i j : Nat)
  /-- `operator+=`, which calls `Append`. -/
  | addAssign (i j : Nat)
  | plus (i j : Nat)
  | swap (i : Nat) (a b : UInt64)
  | erase (i : Nat) (n : UInt64)
  | eraseUnordered (i : Nat) (n : UInt64)
  deriving Repr, DecidableEq

/-- The call passes an element of a vector by reference. -/
def VectorOp.PushesElement {α : Type} : VectorOp α → Prop
  | .pushBackElement _ _ _ _ => True
  | _ => False

section
variable {α : Type} [Inhabited α] (pool : Pool)

/-- A call that needs the vector `i`. It is no call if there is no such vector. -/
def atVector (vs : List (VectorObj α)) (i : Nat)
    (f : VectorObj α → Except BufferFault (List (VectorObj α))) :
    Except BufferFault (List (VectorObj α)) :=
  match vs[i]? with
  | none => .ok vs
  | some v => f v

/-- A member function call that changes the vector `i`. -/
def onVector (vs : List (VectorObj α)) (i : Nat)
    (f : VectorObj α → Except BufferFault (VectorObj α)) :
    Except BufferFault (List (VectorObj α)) :=
  atVector vs i fun v => (f v).map fun v => vs.set i v

/-- A call with the vector `j` as the operand of the vector `i`. -/
def withOperand (vs : List (VectorObj α)) (i j : Nat)
    (f : VectorObj.Arg α → Except BufferFault (List (VectorObj α))) :
    Except BufferFault (List (VectorObj α)) :=
  if i = j then f .self else atVector vs j fun w => f (.other w)

/-- A call for the vector `i` with a reference to the element `k` of the vector `j`. It is no call
if there is no such element. -/
def withElement (vs : List (VectorObj α)) (i j k : Nat) (stale : Option α)
    (f : Buffer.Ref α → Except BufferFault (List (VectorObj α))) :
    Except BufferFault (List (VectorObj α)) :=
  atVector vs j fun w =>
    if k < w.size then
      if i = j then f (.own k stale) else w.index k >>= fun a => f (.value a)
    else .ok vs

/-- A new vector. -/
def newVector (vs : List (VectorObj α)) (v : Except BufferFault (VectorObj α)) :
    Except BufferFault (List (VectorObj α)) :=
  v.map fun v => vs ++ [v]

/-- The vectors after a call. -/
def stepVectors (vs : List (VectorObj α)) : VectorOp α → Except BufferFault (List (VectorObj α))
  | .construct => newVector vs (.ok .construct)
  | .constructSize s => newVector vs (VectorObj.constructSize pool s.toNat)
  | .copyConstruct j => atVector vs j fun v => newVector vs (v.copyConstruct pool)
  | .assign i j => withOperand vs i j fun arg => onVector vs i fun v => v.assign pool arg
  | .reserve i newSize => onVector vs i fun v => v.reserve pool newSize.toNat
  | .resize i newSize val => onVector vs i fun v => v.resize pool newSize.toNat val
  | .clear i => onVector vs i fun v => v.clear
  | .pushBack i d => onVector vs i fun v => v.pushBack pool (.value d)
  | .pushBackElement i j k stale => withElement vs i j k.toNat stale fun d =>
    onVector vs i fun v => v.pushBack pool d
  | .popBack i => onVector vs i fun v => v.popBack
  | .append i j => withOperand vs i j fun arg => onVector vs i fun v => v.append pool arg
  | .addAssign i j => withOperand vs i j fun arg => onVector vs i fun v => v.append pool arg
  | .plus i j => withOperand vs i j fun arg =>
    atVector vs i fun v => newVector vs (v.plus pool arg)
  | .swap i a b => onVector vs i fun v => (v.swap a.toNat b.toNat).map Prod.snd
  | .erase i n => onVector vs i fun v => (v.erase n.toNat).map Prod.snd
  | .eraseUnordered i n => onVector vs i fun v => (v.eraseUnordered n.toNat).map Prod.snd

/-- The vectors after a sequence of calls, from none. -/
def runVectors (ops : List (VectorOp α)) : Except BufferFault (List (VectorObj α)) :=
  ops.foldlM (stepVectors pool) []

end

end KernelEventsTrace.Driver.Std
