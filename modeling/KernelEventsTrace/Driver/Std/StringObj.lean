import KernelEventsTrace.Driver.Std.Pool
import KernelEventsTrace.Driver.Std.UnicodeString

/-!
# `KernelEventsTrace.Driver.Std.StringObj`: the string of the driver, with its memory

`String<T>` of `driver/std/string/string.h`, statement by statement. `StringObj` holds the data
members. `elements_` is the only pointer to its array, so the array is part of the object.

A C string is given by the characters in front of a terminator. It ends at its first `T()`, which
may come earlier.

Some member functions exist for one `T` only. `ElementType` says which `T` it is.

`StringOp` is a call of a member function in a program with several strings, and `runStrings` a
sequence of such calls.
-/

set_option autoImplicit false

namespace KernelEventsTrace.Driver.Std

open KernelEventsTrace (BufferFault Buffer forRange)

/-- The data members of `String<T>`. -/
structure StringObj (α : Type) where
  size : Nat
  elements : Buffer α
  space : Nat
  deriving Repr, DecidableEq

/-- The types that `String<T>` is used with. The constructor from `UNICODE_STRING` is specialized
for `WCHAR` and `char`, and the assignment from it for `WCHAR`. -/
inductive ElementType : (α : Type) → Inhabited α → Type 1 where
  | wchar : ElementType WChar inferInstance
  | char : ElementType UInt8 inferInstance
  | other {α : Type} {inst : Inhabited α} : ElementType α inst

/-- A `UNICODE_STRING` operand. Its characters fit into its buffer. -/
structure UnicodeOperand extends UnicodeString where
  fits : 2 * chars.length ≤ maximumLength
  maximumLength_lt : maximumLength < 2 ^ 16
  deriving Repr, DecidableEq

/-- A C string operand. It lies in the address space. -/
structure CStringOperand (α : Type) where
  chars : List α
  length_lt : chars.length + 1 < 2 ^ 64
  deriving Repr, DecidableEq

namespace StringObj

variable {α : Type}

/-- A string operand: `*this`, or another string. -/
inductive Arg (α : Type) where
  | self
  | other (s : StringObj α)

/-- The operand, as it is when `*this` is `s`. -/
def Arg.get (s : StringObj α) : Arg α → StringObj α
  | self => s
  | other t => t

/-- `Data()[i]` for `i < Size()`, as a list. -/
def content (s : StringObj α) : List α := s.elements.cells.take s.size

/-- `operator[]`. -/
def index (self : StringObj α) (i : Nat) : Except BufferFault α := self.elements.read i

/-- `Front`. -/
def front (self : StringObj α) : Except BufferFault α := self.elements.read 0

/-- `Back`. Without characters the index wraps around. -/
def back (self : StringObj α) : Except BufferFault α :=
  self.elements.read (sizeT (self.size + (2 ^ 64 - 1)))

/-- `String()`. -/
def construct : StringObj α := ⟨0, .null, 0⟩

section
variable [Inhabited α] (pool : Pool)

/-- `Allocate`. -/
def allocate (n : Nat) : Except BufferFault (Buffer α) := do
  let p ← pool.allocate (sizeT (n + 1))
  p.write n default

/-- `p[i] = src[i]` for `i < n`. -/
def copyCells (src : Buffer α) (n : Nat) (p : Buffer α) : Except BufferFault (Buffer α) :=
  forRange 0 n (fun p i => do p.write i (← src.read i)) p

/-- `p[i] = T()` for `lo <= i < hi`. -/
def fillCells (lo hi : Nat) (p : Buffer α) : Except BufferFault (Buffer α) :=
  forRange lo hi (fun p i => p.write i default) p

/-- `String(size_t)`. -/
def constructSize (size : Nat) : Except BufferFault (StringObj α) := do
  let elements ← fillCells 0 size (← allocate pool size)
  return ⟨size, elements, size⟩

/-- The copy constructor. -/
def copyConstruct (str : StringObj α) : Except BufferFault (StringObj α) := do
  let elements ← copyCells str.elements str.size (← allocate pool str.size)
  return ⟨str.size, elements, str.size⟩

/-- `operator=` of another string. -/
def assignOther (self str : StringObj α) : Except BufferFault (StringObj α) := do
  if str.size ≤ self.space then
    -- The cell after the characters stays as it is.
    let elements ← copyCells str.elements str.size self.elements
    return { self with elements := elements, size := str.size }
  else
    let p ← copyCells str.elements str.size (← allocate pool str.size)
    return ⟨str.size, p, str.size⟩

/-- `operator=`. -/
def assign (self : StringObj α) : Arg α → Except BufferFault (StringObj α)
  | .self => .ok self
  | .other str => self.assignOther pool str

/-- `Reserve`. -/
def reserve (self : StringObj α) (newSize : Nat) : Except BufferFault (StringObj α) := do
  if newSize ≤ self.space then
    return self
  else
    let p ← copyCells self.elements self.size (← allocate pool newSize)
    return { self with elements := p, space := newSize }

/-- `Resize`. The value for the new characters is not used. -/
def resize (self : StringObj α) (newSize : Nat) (_val : α) : Except BufferFault (StringObj α) := do
  let self ← self.reserve pool newSize
  let elements ← fillCells self.size newSize self.elements
  return { self with elements := elements, size := newSize }

/-- The room that `PushBack` makes before it writes. -/
def growForPush (self : StringObj α) : Except BufferFault (StringObj α) :=
  if self.space = 0 then self.reserve pool 8
  else if self.size = self.space then self.reserve pool (sizeT (2 * self.space))
  else .ok self

/-- `PushBack`. The argument is read after `Reserve`, which deletes the old array if it makes more
room. -/
def pushBack (self : StringObj α) (ele : Buffer.Ref α) : Except BufferFault (StringObj α) := do
  let grown ← self.growForPush pool
  let c ← ele.read (self.space < grown.space) grown.elements
  let elements ← grown.elements.write grown.size c
  return { grown with elements := elements, size := sizeT (grown.size + 1) }

/-- The greater size, twice (`max(str.Size(), size_) * 2`). -/
def doubled (a b : Nat) : Nat := sizeT (max a b * 2)

/-- `Append`. After `Reserve`, an operand that is `*this` has the new array. -/
def append (self : StringObj α) (str : Arg α) : Except BufferFault (StringObj α) := do
  let self ← self.reserve pool (doubled (str.get self).size self.size)
  let size := (str.get self).size
  let elements ← forRange 0 size (fun p index => do
    let c ← (str.get { self with elements := p }).elements.read index
    p.write (index + self.size) c) self.elements
  return { self with elements := elements, size := sizeT (self.size + size) }

/-- `operator+`. -/
def plus (self : StringObj α) (str : Arg α) : Except BufferFault (StringObj α) := do
  let str := str.get self
  let res : StringObj α := construct
  let res ← res.reserve pool (doubled str.size self.size)
  let res ← res.resize pool (sizeT (str.size + self.size)) default
  let elements ← copyCells self.elements self.size res.elements
  let elements ← forRange 0 str.size (fun p index => do
    p.write (index + self.size) (← str.elements.read index)) elements
  return { res with elements := elements }

end

section
variable {inst : Inhabited α} (T : ElementType α inst) (pool : Pool)

/-- `String(const UNICODE_STRING&)` of the two specializations. The loop of the one for `char` is
bounded by the number of bytes. -/
def constructUnicode (s : UnicodeString) :
    Option (Except BufferFault (StringObj α)) :=
  match T with
  | .wchar => some do
    let size := s.length / 2
    let elements ← copyCells (.array s.chars) size (← allocate pool size)
    let elements ← elements.write size 0
    return ⟨size, elements, size⟩
  | .char => some do
    let size := s.length / 2
    let elements ← allocate pool size
    let elements ← forRange 0 s.length (fun p i => do
      p.write i (← (Buffer.array s.chars).read i).toUInt8) elements
    let elements ← elements.write s.length 0
    return ⟨size, elements, size⟩
  | .other => none

/-- `operator=(const PUNICODE_STRING&)`. -/
def assignUnicode (s : Option UnicodeString) :
    Option (Except BufferFault (StringObj α)) :=
  match T with
  | .wchar => some do
    match s with
    | none => return ⟨0, .null, 0⟩
    | some s =>
      let size := s.length / 2
      -- Room for as many characters as the buffer has bytes.
      let elements ← copyCells (.array s.chars) size (← allocate pool s.maximumLength)
      let elements ← elements.write size 0
      return ⟨size, elements, s.maximumLength⟩
  | .char => none
  | .other => none

end

section
variable [Inhabited α] [DecidableEq α] (pool : Pool)

/-- The characters of a C string. -/
def cstrContent (cstr : List α) : List α := cstr.takeWhile fun c => c ≠ default

/-- `String(const T*)`. The characters are counted with an `int`. -/
def constructCstr (cstr : List α) : Except BufferFault (StringObj α) := do
  let size := (cstrContent cstr).length
  if size < 2 ^ 31 then
    let elements ← copyCells (.array (cstrContent cstr)) size (← allocate pool size)
    return ⟨size, elements, size⟩
  else
    throw .outOfBounds

/-- `operator=(const T*)`. -/
def assignCstr (self : StringObj α) (cstr : List α) : Except BufferFault (StringObj α) := do
  let size := (cstrContent cstr).length
  if size ≤ self.space then
    let elements ← copyCells (.array (cstrContent cstr)) size self.elements
    let elements ← fillCells size self.space elements
    return { self with elements := elements, size := size }
  else
    let p ← copyCells (.array (cstrContent cstr)) size (← allocate pool size)
    return ⟨size, p, size⟩

end

end StringObj

/-! ### Programs that use strings -/

/-- A call of a member function. Strings are numbered in the order of their construction. A
constructor and `operator+` make a new one. -/
inductive StringOp (α : Type) where
  | construct
  | constructSize (size : UInt64)
  | copyConstruct (j : Nat)
  | constructCstr (cstr : CStringOperand α)
  | constructUnicode (s : UnicodeOperand)
  | assign (i j : Nat)
  | assignCstr (i : Nat) (cstr : CStringOperand α)
  | assignUnicode (i : Nat) (s : Option UnicodeOperand)
  | reserve (i : Nat) (newSize : UInt64)
  | resize (i : Nat) (newSize : UInt64) (val : α)
  | pushBack (i : Nat) (ele : α)
  /-- `PushBack` for the string `i`, with a reference to the character `k` of the string `j`. If the
  call deletes that character first, `stale` is what it reads. -/
  | pushBackElement (i j : Nat) (k : UInt64) (stale : Option α)
  | append (i j : Nat)
  /-- `operator+=`, which calls `Append`. -/
  | addAssign (i j : Nat)
  | plus (i j : Nat)
  deriving Repr, DecidableEq

/-- The call passes a character of a string by reference. -/
def StringOp.PushesElement {α : Type} : StringOp α → Prop
  | .pushBackElement _ _ _ _ => True
  | _ => False

/-- A read of a deleted character in the call is a fault. -/
def StringOp.DeletedFaults {α : Type} : StringOp α → Prop
  | .pushBackElement _ _ _ stale => stale = none
  | _ => True

section
variable {α : Type} [inst : Inhabited α] [DecidableEq α] (T : ElementType α inst) (pool : Pool)

/-- A call that needs the string `i`. It is no call if there is no such string. -/
def atString (ss : List (StringObj α)) (i : Nat)
    (f : StringObj α → Except BufferFault (List (StringObj α))) :
    Except BufferFault (List (StringObj α)) :=
  match ss[i]? with
  | none => .ok ss
  | some s => f s

/-- A member function call that changes the string `i`. -/
def onString (ss : List (StringObj α)) (i : Nat)
    (f : StringObj α → Except BufferFault (StringObj α)) :
    Except BufferFault (List (StringObj α)) :=
  atString ss i fun s => (f s).map fun s => ss.set i s

/-- A call with the string `j` as the operand of the string `i`. -/
def withArg (ss : List (StringObj α)) (i j : Nat)
    (f : StringObj.Arg α → Except BufferFault (List (StringObj α))) :
    Except BufferFault (List (StringObj α)) :=
  if i = j then f .self else atString ss j fun t => f (.other t)

/-- A call for the string `i` with a reference to the character `k` of the string `j`. It is no call
if there is no such character. -/
def withCharacter (ss : List (StringObj α)) (i j k : Nat) (stale : Option α)
    (f : Buffer.Ref α → Except BufferFault (List (StringObj α))) :
    Except BufferFault (List (StringObj α)) :=
  atString ss j fun t =>
    if k < t.size then
      if i = j then f (.own k stale) else t.index k >>= fun c => f (.value c)
    else .ok ss

/-- A new string. -/
def newString (ss : List (StringObj α)) (s : Except BufferFault (StringObj α)) :
    Except BufferFault (List (StringObj α)) :=
  s.map fun s => ss ++ [s]

/-- A call that is no call for another `T`. -/
def ifDefined (ss : List (StringObj α)) (s : Option (Except BufferFault (StringObj α)))
    (f : Except BufferFault (StringObj α) → Except BufferFault (List (StringObj α))) :
    Except BufferFault (List (StringObj α)) :=
  match s with
  | none => .ok ss
  | some s => f s

/-- The strings after a call. -/
def stepStrings (ss : List (StringObj α)) : StringOp α → Except BufferFault (List (StringObj α))
  | .construct => newString ss (.ok .construct)
  | .constructSize size => newString ss (StringObj.constructSize pool size.toNat)
  | .copyConstruct j => atString ss j fun t => newString ss (t.copyConstruct pool)
  | .constructCstr cstr => newString ss (StringObj.constructCstr pool cstr.chars)
  | .constructUnicode s =>
    ifDefined ss (StringObj.constructUnicode T pool s.toUnicodeString) fun s => newString ss s
  | .assign i j => withArg ss i j fun arg => onString ss i fun s => s.assign pool arg
  | .assignCstr i cstr => onString ss i fun s => s.assignCstr pool cstr.chars
  | .assignUnicode i s =>
    ifDefined ss (StringObj.assignUnicode T pool (s.map (·.toUnicodeString))) fun s =>
      onString ss i fun _ => s
  | .reserve i newSize => onString ss i fun s => s.reserve pool newSize.toNat
  | .resize i newSize val => onString ss i fun s => s.resize pool newSize.toNat val
  | .pushBack i ele => onString ss i fun s => s.pushBack pool (.value ele)
  | .pushBackElement i j k stale => withCharacter ss i j k.toNat stale fun ele =>
    onString ss i fun s => s.pushBack pool ele
  | .append i j => withArg ss i j fun arg => onString ss i fun s => s.append pool arg
  | .addAssign i j => withArg ss i j fun arg => onString ss i fun s => s.append pool arg
  | .plus i j => withArg ss i j fun arg =>
    atString ss i fun s => newString ss (s.plus pool arg)

/-- The strings after a sequence of calls, from none. -/
def runStrings (ops : List (StringOp α)) : Except BufferFault (List (StringObj α)) :=
  ops.foldlM (stepStrings T pool) []

end

end KernelEventsTrace.Driver.Std
