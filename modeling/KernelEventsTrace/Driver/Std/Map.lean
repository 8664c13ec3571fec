import KernelEventsTrace.Driver.Std.Heap

/-!
# `KernelEventsTrace.Driver.Std.Map`: the red-black tree map

`Map<Key, T, Compare>` of `driver/std/map/map.h`, at the level of its pointers. A `Map`
here is the map object (`root_`, `nil_`, `size_`) together with the memory its nodes live
in. A member function takes a `Map` and returns the changed one, or a `Fault`.

`LeftRotate` and `RightRotate` are mirror images, and so are the two branches of the
fix-up loops. Each such pair is one definition over a `Side`. The relinking of a parent,
which `LeftRotate`, `RightRotate` and `Transplant` share, tests the left child first on
both sides, as the source does.

A loop takes its number of rounds as `fuel`. A member function runs its loops for
`Map.fuel` rounds, and a loop that is cut off is a `Fault.fuel`. For the loops of `Copy` and
`Erase(first, last)` the fuel stays an argument.
-/

set_option autoImplicit false

namespace KernelEventsTrace.Driver.Std

open KernelEventsTrace.RedBlack (Side)

/-- The data members of a `Map` object. -/
structure MapObj where
  root : Ptr
  nil : Ptr
  size : Nat
  deriving Repr, DecidableEq

/-- A `Map` object and the memory it lives in. -/
structure Map (K V : Type) extends MapObj where
  heap : Heap K V
  deriving Repr, DecidableEq

/-- An iterator is the pointer to its node. `End()` points to `nil_`. -/
abbrev Iterator := Ptr

variable {K V : Type}

namespace Map

/-! ### Memory access -/

/-- `*p`. -/
def node (m : Map K V) (p : Ptr) : Except Fault (Node K V) :=
  match m.heap.get p with
  | some n => .ok n
  | none => .error .deref

/-- A write through `p`. -/
def update (m : Map K V) (p : Ptr) (f : Node K V → Node K V) : Except Fault (Map K V) := do
  let n ← m.node p
  return { m with heap := m.heap.put p (some (f n)) }

/-- `p->is_red = c`. -/
def setRed (m : Map K V) (p : Ptr) (c : Bool) : Except Fault (Map K V) :=
  m.update p fun n => { n with isRed := c }

/-- `p->parent = q`. -/
def setParent (m : Map K V) (p q : Ptr) : Except Fault (Map K V) :=
  m.update p fun n => { n with parent := q }

/-- `if (p != nil_) p->parent = q`. -/
def setParentUnlessNil (m : Map K V) (p q : Ptr) : Except Fault (Map K V) :=
  if p ≠ m.nil then m.setParent p q else .ok m

/-- `p->left = q` or `p->right = q`. -/
def setChild (m : Map K V) (d : Side) (p q : Ptr) : Except Fault (Map K V) :=
  m.update p (Node.setChild d q)

/-- `new Node(key, value)`. -/
def newNode (m : Map K V) (key : K) (val : V) : Ptr × Map K V :=
  (m.heap.next,
    { m with heap := m.heap.alloc
              { key := key, val := val, isRed := true,
                parent := nullptr, left := nullptr, right := nullptr } })

/-- `delete p`. -/
def deleteNode (m : Map K V) (p : Ptr) : Except Fault (Map K V) := do
  let _ ← m.node p
  return { m with heap := m.heap.put p none }

/-- The rounds a loop of a member function gets. -/
def fuel (m : Map K V) : Nat := m.size + 2

/-! ### Construction -/

section
variable [Inhabited K] [Inhabited V]

/-- `Map()`: a sentinel that is its own parent and its own children. -/
def construct (h : Heap K V) : Map K V :=
  let nil := h.next
  { heap := h.alloc { key := default, val := default, isRed := false,
                      parent := nil, left := nil, right := nil },
    root := nil, nil := nil, size := 0 }

end

/-! ### Rotations -/

/-- Put `v` in the place of `u` below the parent of `u`, or at the root. -/
def relink (m : Map K V) (u v : Ptr) : Except Fault (Map K V) := do
  let p := (← m.node u).parent
  if p = m.nil then
    return { m with root := v }
  else if u = (← m.node p).left then
    m.setChild .left p v
  else
    m.setChild .right p v

/-- The rotation that moves `x` down to side `d`: its child on the other side goes up. -/
def rotate (d : Side) (m : Map K V) (x : Ptr) : Except Fault (Map K V) := do
  let y := (← m.node x).child d.flip
  if x = m.nil ∨ y = m.nil then
    throw .rotateNil
  let m ← m.setChild d.flip x ((← m.node y).child d)
  let m ← m.setParentUnlessNil ((← m.node y).child d) x
  let m ← m.setParent y (← m.node x).parent
  -- `y` is linked below the old parent of `x` before `x` moves below `y`.
  let m ← m.relink x y
  let m ← m.setChild d y x
  m.setParent x y

/-- `LeftRotate`. -/
def leftRotate (m : Map K V) (x : Ptr) : Except Fault (Map K V) := rotate .left m x

/-- `RightRotate`. -/
def rightRotate (m : Map K V) (y : Ptr) : Except Fault (Map K V) := rotate .right m y

/-! ### Insertion fix-up -/

/-- The red uncle `y` of `InsertFixup`: parent and uncle become black, the grandparent red.
Returns the new `z`, the grandparent. -/
def insertRecolor (m : Map K V) (z y : Ptr) : Except Fault (Map K V × Ptr) := do
  let zp := (← m.node z).parent
  let m ← m.setRed zp false
  let m ← m.setRed y false
  let zpp := (← m.node zp).parent
  let m ← m.setRed zpp true
  return (m, zpp)

/-- The inner case of `InsertFixup`: if `z` is the child on the other side, `z` becomes its
parent, which is rotated down. Returns the new `z`. -/
def insertInner (d : Side) (m : Map K V) (z : Ptr) : Except Fault (Map K V × Ptr) := do
  let zp := (← m.node z).parent
  if z = (← m.node zp).child d.flip then
    let m ← rotate d m zp
    return (m, zp)
  else
    return (m, z)

/-- The outer case of `InsertFixup`: the parent becomes black, the grandparent becomes red
and is rotated down. -/
def insertOuter (d : Side) (m : Map K V) (z : Ptr) : Except Fault (Map K V) := do
  let zp := (← m.node z).parent
  let m ← m.setRed zp false
  let zpp := (← m.node zp).parent
  let m ← m.setRed zpp true
  rotate d.flip m zpp

/-- One round of `InsertFixup` when the parent of `z` is the child of the grandparent on
side `d`. Returns the changed map and the new `z`. -/
def insertFixupStep (d : Side) (m : Map K V) (z : Ptr) : Except Fault (Map K V × Ptr) := do
  let zp := (← m.node z).parent
  let zpp := (← m.node zp).parent
  let y := (← m.node zpp).child d.flip
  if (← m.node y).isRed then
    m.insertRecolor z y
  else
    let (m, z) ← insertInner d m z
    let m ← insertOuter d m z
    return (m, z)

/-- The loop of `InsertFixup`. -/
def insertFixupLoop : Nat → Map K V → Ptr → Except Fault (Map K V)
  | 0, _, _ => .error .fuel
  | fuel + 1, m, z => do
    let zp := (← m.node z).parent
    if (← m.node zp).isRed then
      let zpp := (← m.node zp).parent
      let (m, z) ←
        if zp = (← m.node zpp).left then insertFixupStep .left m z
        else insertFixupStep .right m z
      insertFixupLoop fuel m z
    else
      return m

/-- `InsertFixup`. -/
def insertFixup (m : Map K V) (z : Ptr) : Except Fault (Map K V) := do
  let m ← insertFixupLoop m.fuel m z
  m.setRed m.root false

/-! ### Deletion fix-up -/

/-- The red sibling of `DeleteFixup`: the sibling becomes black, the parent becomes red and
is rotated down. Returns the sibling to go on with. -/
def deleteSibling (d : Side) (m : Map K V) (x : Ptr) : Except Fault (Map K V × Ptr) := do
  let xp := (← m.node x).parent
  let w := (← m.node xp).child d.flip
  if (← m.node w).isRed then
    let m ← m.setRed w false
    let m ← m.setRed xp true
    let m ← rotate d m xp
    -- `x` may be the sentinel. Its parent is read again.
    return (m, (← m.node (← m.node x).parent).child d.flip)
  else
    return (m, w)

/-- The inner case of `DeleteFixup`: if the far child of the sibling `w` is black, the near
child becomes black, and `w` becomes red and is rotated down. Returns the sibling to go on
with. -/
def deleteInner (d : Side) (m : Map K V) (x w : Ptr) : Except Fault (Map K V × Ptr) := do
  if (← m.node ((← m.node w).child d.flip)).isRed = false then
    let m ← m.setRed ((← m.node w).child d) false
    let m ← m.setRed w true
    let m ← rotate d.flip m w
    return (m, (← m.node (← m.node x).parent).child d.flip)
  else
    return (m, w)

/-- The outer case of `DeleteFixup`: the sibling takes the colour of the parent, the parent
and the far child become black, and the parent is rotated down. -/
def deleteOuter (d : Side) (m : Map K V) (x w : Ptr) : Except Fault (Map K V) := do
  let xp := (← m.node x).parent
  let m ← m.setRed w (← m.node xp).isRed
  let m ← m.setRed xp false
  let m ← m.setRed ((← m.node w).child d.flip) false
  rotate d m xp

/-- One round of `DeleteFixup` when `x` is the child of its parent on side `d`. Returns the
changed map and the new `x`. -/
def deleteFixupStep (d : Side) (m : Map K V) (x : Ptr) : Except Fault (Map K V × Ptr) := do
  let (m, w) ← deleteSibling d m x
  let near := (← m.node w).child d
  let far := (← m.node w).child d.flip
  if (← m.node near).isRed = false ∧ (← m.node far).isRed = false then
    let m ← m.setRed w true
    return (m, (← m.node x).parent)
  else
    let (m, w) ← deleteInner d m x w
    let m ← deleteOuter d m x w
    -- `x = root_` ends the loop.
    return (m, m.root)

/-- The loop of `DeleteFixup`. Returns the `x` it ends at. -/
def deleteFixupLoop : Nat → Map K V → Ptr → Except Fault (Map K V × Ptr)
  | 0, _, _ => .error .fuel
  | fuel + 1, m, x => do
    if x ≠ m.root ∧ (← m.node x).isRed = false then
      let xp := (← m.node x).parent
      let (m, x) ←
        if x = (← m.node xp).left then deleteFixupStep .left m x
        else deleteFixupStep .right m x
      deleteFixupLoop fuel m x
    else
      return (m, x)

/-- `DeleteFixup`. -/
def deleteFixup (m : Map K V) (x : Ptr) : Except Fault (Map K V) := do
  let (m, x) ← deleteFixupLoop m.fuel m x
  m.setRed x false

/-! ### Helper walks -/

/-- `Transplant`. -/
def transplant (m : Map K V) (u v : Ptr) : Except Fault (Map K V) := do
  let m ← m.relink u v
  -- Without a test for `nil_`: the sentinel gets a parent, which `DeleteFixup` reads.
  m.setParent v (← m.node u).parent

/-- The loop of `Minimum` (`d = left`) and `Maximum` (`d = right`). -/
def extremeLoop (d : Side) : Nat → Map K V → Ptr → Except Fault Ptr
  | 0, _, _ => .error .fuel
  | fuel + 1, m, p => do
    let c := (← m.node p).child d
    if c ≠ m.nil then extremeLoop d fuel m c else return p

/-- `Minimum`. -/
def minimum (m : Map K V) (p : Ptr) : Except Fault Ptr := extremeLoop .left m.fuel m p

/-- `Maximum`. -/
def maximum (m : Map K V) (p : Ptr) : Except Fault Ptr := extremeLoop .right m.fuel m p

/-- The loop of `Successor` (`d = right`) and `Predecessor` (`d = left`): up to the first
node that is not the child of its parent on side `d`. -/
def climbLoop (d : Side) : Nat → Map K V → Ptr → Ptr → Except Fault Ptr
  | 0, _, _, _ => .error .fuel
  | fuel + 1, m, p, y => do
    if y ≠ m.nil then
      if p = (← m.node y).child d then
        climbLoop d fuel m y (← m.node y).parent
      else return y
    else return y

/-- `Successor` (`d = right`) and `Predecessor` (`d = left`). -/
def neighbour (d : Side) (m : Map K V) (p : Ptr) : Except Fault Ptr := do
  let c := (← m.node p).child d
  if c ≠ m.nil then
    extremeLoop d.flip m.fuel m c
  else
    climbLoop d m.fuel m p (← m.node p).parent

/-- `Successor`. -/
def successor (m : Map K V) (p : Ptr) : Except Fault Ptr := neighbour .right m p

/-- `Predecessor`. -/
def predecessor (m : Map K V) (p : Ptr) : Except Fault Ptr := neighbour .left m p

/-- `Clear(Node*)`: the recursion depth is the fuel. -/
def clearNode : Nat → Map K V → Ptr → Except Fault (Map K V)
  | 0, _, _ => .error .fuel
  | fuel + 1, m, p => do
    if p ≠ m.nil then
      let m ← clearNode fuel m (← m.node p).left
      let m ← clearNode fuel m (← m.node p).right
      m.deleteNode p
    else return m

/-- `Copy(Node*, Node*)`: the recursion depth is the fuel. Returns the new node. The nodes
of the source lie in the same memory. -/
def copyNode : Nat → Map K V → Ptr → Ptr → Except Fault (Ptr × Map K V)
  | 0, _, _, _ => .error .fuel
  | fuel + 1, m, p, parent => do
    if p = m.nil then return (m.nil, m)
    -- `p` is a node of the source. Its leaves are the sentinel of the source, not `m.nil`.
    let n ← m.node p
    let (q, m) := m.newNode n.key n.val
    let m ← m.setRed q (← m.node p).isRed
    let m ← m.setParent q parent
    let (l, m) ← copyNode fuel m (← m.node p).left q
    let m ← m.setChild .left q l
    let (r, m) ← copyNode fuel m (← m.node p).right q
    let m ← m.setChild .right q r
    return (q, m)

/-! ### Public operations -/

/-- `Begin()`. -/
def begin' (m : Map K V) : Except Fault Iterator := m.minimum m.root

/-- `End()`. -/
def endIt (m : Map K V) : Iterator := m.nil

/-- `++it`. -/
def increment (m : Map K V) (it : Iterator) : Except Fault Iterator :=
  if it = m.nil then .ok it else m.successor it

/-- `Clear()`. -/
def clear (m : Map K V) : Except Fault (Map K V) := do
  let m ← clearNode m.fuel m m.root
  return { m with root := m.nil, size := 0 }

section
variable (compare : K → K → Bool)

/-- Where a search ends: at a node with an equivalent key, or below `y`. -/
inductive Search where
  | found (x : Ptr)
  | absent (y : Ptr)
  deriving Repr, DecidableEq

/-- The search loop of `operator[]`, `Insert` and `Find`. -/
def searchLoop : Nat → Map K V → K → Ptr → Ptr → Except Fault Search
  | 0, _, _, _, _ => .error .fuel
  | fuel + 1, m, key, x, y => do
    if x ≠ m.nil then
      let n ← m.node x
      if compare key n.key then searchLoop fuel m key n.left x
      else if compare n.key key then searchLoop fuel m key n.right x
      else return .found x
    else return .absent y

/-- `Find`. -/
def find (m : Map K V) (key : K) : Except Fault Iterator := do
  match ← searchLoop compare m.fuel m key m.root m.nil with
  | .found x => return x
  | .absent _ => return m.endIt

/-- `Count`. -/
def count (m : Map K V) (key : K) : Except Fault Nat := do
  return if (← m.find compare key) ≠ m.endIt then 1 else 0

/-- `z` becomes the root, or the child of `y` on the side that its key belongs to. -/
def linkBelow (m : Map K V) (z y : Ptr) : Except Fault (Map K V) := do
  if y = m.nil then return { m with root := z }
  else if compare (← m.node z).key (← m.node y).key then m.setChild .left y z
  else m.setChild .right y z

/-- The new node `z` becomes a red leaf below `y`. -/
def link (m : Map K V) (z y : Ptr) : Except Fault (Map K V) := do
  let m ← m.setParent z y
  let m ← linkBelow compare m z y
  let m ← m.setChild .left z m.nil
  let m ← m.setChild .right z m.nil
  m.setRed z true

/-- The second half of `operator[]` and `Insert`: `z` is linked below `y`. -/
def attach (m : Map K V) (z y : Ptr) : Except Fault (Map K V) := do
  let m ← link compare m z y
  let m ← m.insertFixup z
  return { m with size := m.size + 1 }

/-- `operator[]`: the node whose value the returned reference names. -/
def index [Inhabited V] (m : Map K V) (key : K) : Except Fault (Ptr × Map K V) := do
  match ← searchLoop compare m.fuel m key m.root m.nil with
  | .found x => return (x, m)
  | .absent y =>
    let (z, m) := m.newNode key default
    let m ← attach compare m z y
    return (z, m)

/-- `Insert(key, value)`. -/
def insert (m : Map K V) (key : K) (val : V) : Except Fault (Iterator × Bool × Map K V) := do
  -- The node is allocated before the search, and deleted again if the key is there.
  let (z, m) := m.newNode key val
  match ← searchLoop compare m.fuel m key m.root m.nil with
  | .found x =>
    let m ← m.deleteNode z
    return (x, false, m)
  | .absent y =>
    let m ← attach compare m z y
    return (z, true, m)

end

/-- The first part of `Erase` at a node `z` with two children: its successor `y` leaves its
place to its right child and takes over the right subtree of `z`. -/
def detachNext (m : Map K V) (z y : Ptr) : Except Fault (Map K V) := do
  let x := (← m.node y).right
  if (← m.node y).parent = z then
    -- `x` is below `y` already. The write matters when `x` is the sentinel.
    m.setParent x y
  else
    let m ← m.transplant y x
    let m ← m.setChild .right y (← m.node z).right
    m.setParent (← m.node y).right y

/-- The second part: `y` takes the place, the left subtree and the colour of `z`. -/
def replaceBy (m : Map K V) (z y : Ptr) : Except Fault (Map K V) := do
  let m ← m.transplant z y
  let m ← m.setChild .left y (← m.node z).left
  let m ← m.setParent (← m.node y).left y
  m.setRed y (← m.node z).isRed

/-- `Erase(position)` up to `delete z`: `z` leaves the tree. Returns `x`, the colour that left
the tree, and the map. -/
def unlink (m : Map K V) (z : Ptr) : Except Fault (Ptr × Bool × Map K V) := do
  let n ← m.node z
  if n.left = m.nil then
    let m ← m.transplant z n.right
    return (n.right, n.isRed, m)
  else if n.right = m.nil then
    let m ← m.transplant z n.left
    return (n.left, n.isRed, m)
  else
    let y ← m.minimum n.right
    let ny ← m.node y
    let m ← m.detachNext z y
    let m ← m.replaceBy z y
    return (ny.right, ny.isRed, m)

/-- `DeleteFixup(x)`, if the colour that left the tree is black. -/
def fixupAfter (m : Map K V) (yOriginalColor : Bool) (x : Ptr) : Except Fault (Map K V) :=
  if yOriginalColor = false then m.deleteFixup x else .ok m

/-- `Erase(position)`. -/
def eraseAt (m : Map K V) (position : Iterator) : Except Fault (Iterator × Map K V) := do
  if position = m.endIt then
    -- `Iterator()`, which is not `End()`.
    return (nullptr, m)
  else
    let z := position
    let (x, yOriginalColor, m) ← m.unlink z
    let m ← m.deleteNode z
    let m ← fixupAfter { m with size := m.size - 1 } yOriginalColor x
    -- `x` moved up into the gap. It need not be the successor of `position`.
    return (x, m)

/-- `Erase(key)`. -/
def erase (compare : K → K → Bool) (m : Map K V) (key : K) :
    Except Fault (Nat × Map K V) := do
  let it ← m.find compare key
  if it ≠ m.endIt then
    let (_, m) ← m.eraseAt it
    return (1, m)
  else return (0, m)

/-- The loop of `Erase(first, last)`, for at most `fuel` rounds. -/
def eraseLoop : Nat → Map K V → Iterator → Iterator → Except Fault (Map K V)
  | 0, _, _, _ => .error .fuel
  | fuel + 1, m, first, last => do
    if first ≠ last then
      let (first, m) ← m.eraseAt first
      eraseLoop fuel m first last
    else return m

/-- `Erase(first, last)`. -/
def eraseRange (fuel : Nat) (m : Map K V) (first last : Iterator) :
    Except Fault (Iterator × Map K V) := do
  let m ← eraseLoop fuel m first last
  return (last, m)

section
variable [Inhabited K] [Inhabited V]

/-- `Map(const Map& other)`. The memory is that of `other`. -/
def copyConstruct (fuel : Nat) (other : Map K V) : Except Fault (Map K V) := do
  let m := construct other.heap
  if other.root ≠ other.nil then
    let (r, m) ← copyNode fuel m other.root m.nil
    return { m with root := r, size := other.size }
  else return m

/-- `operator=(const Map& other)`, for another object than `this`. -/
def copyAssign (fuel : Nat) (m : Map K V) (other : MapObj) : Except Fault (Map K V) := do
  let m ← m.clear
  if other.root ≠ other.nil then
    let (r, m) ← copyNode fuel m other.root m.nil
    return { m with root := r, size := other.size }
  else return { m with root := m.nil, size := 0 }

end

end Map

end KernelEventsTrace.Driver.Std
