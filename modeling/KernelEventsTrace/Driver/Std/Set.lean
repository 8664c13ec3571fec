import KernelEventsTrace.Driver.Std.Map

/-!
# `KernelEventsTrace.Driver.Std.Set`: the red-black tree set

`Set<Key, Compare>` of `driver/std/set/set.h`, at the level of its pointers. The header has its
own copy of the tree code of `Map`, and the definitions here follow that copy. Both branches of
the fix-up loops and both rotations are written out, as in the source.

A node of a `Set` is a `Node` without a value, so its memory is a `Heap Key Unit`. Faults and
fuel are those of `Map`.
-/

set_option autoImplicit false

namespace KernelEventsTrace.Driver.Std

/-- A `Set` object and the memory it lives in. -/
structure Set (K : Type) extends MapObj where
  heap : Heap K Unit
  deriving Repr, DecidableEq

variable {K : Type}

namespace Set

/-! ### Memory access -/

/-- `*p`. -/
def node (s : Set K) (p : Ptr) : Except Fault (Node K Unit) :=
  match s.heap.get p with
  | some n => .ok n
  | none => .error .deref

/-- A write through `p`. -/
def update (s : Set K) (p : Ptr) (f : Node K Unit → Node K Unit) : Except Fault (Set K) := do
  let n ← s.node p
  return { s with heap := s.heap.put p (some (f n)) }

/-- `p->is_red = c`. -/
def setRed (s : Set K) (p : Ptr) (c : Bool) : Except Fault (Set K) :=
  s.update p fun n => { n with isRed := c }

/-- `p->parent = q`. -/
def setParent (s : Set K) (p q : Ptr) : Except Fault (Set K) :=
  s.update p fun n => { n with parent := q }

/-- `p->left = q`. -/
def setLeft (s : Set K) (p q : Ptr) : Except Fault (Set K) :=
  s.update p fun n => { n with left := q }

/-- `p->right = q`. -/
def setRight (s : Set K) (p q : Ptr) : Except Fault (Set K) :=
  s.update p fun n => { n with right := q }

/-- `new Node(val)`. -/
def newNode (s : Set K) (val : K) : Ptr × Set K :=
  (s.heap.next,
    { s with heap := s.heap.alloc
              { key := val, val := (), isRed := true,
                parent := nullptr, left := nullptr, right := nullptr } })

/-- `delete p`. -/
def deleteNode (s : Set K) (p : Ptr) : Except Fault (Set K) := do
  let _ ← s.node p
  return { s with heap := s.heap.put p none }

/-- The rounds a loop of a member function gets. -/
def fuel (s : Set K) : Nat := s.size + 2

/-- `Set(comp)`: a sentinel that is its own parent and its own children. -/
def construct [Inhabited K] (h : Heap K Unit) : Set K :=
  let nil := h.next
  { heap := h.alloc { key := default, val := (), isRed := false,
                      parent := nil, left := nil, right := nil },
    root := nil, nil := nil, size := 0 }

/-! ### Rotations -/

/-- Put `v` in the place of `u` below the parent of `u`, or at the root. -/
def relink (s : Set K) (u v : Ptr) : Except Fault (Set K) := do
  let p := (← s.node u).parent
  if p = s.nil then
    return { s with root := v }
  else if u = (← s.node p).left then
    s.setLeft p v
  else
    s.setRight p v

/-- `LeftRotate`. -/
def leftRotate (s : Set K) (x : Ptr) : Except Fault (Set K) := do
  let y := (← s.node x).right
  let s ← s.setRight x (← s.node y).left
  let yl := (← s.node y).left
  let s ← if yl ≠ s.nil then s.setParent yl x else pure s
  let s ← s.setParent y (← s.node x).parent
  let s ← s.relink x y
  let s ← s.setLeft y x
  s.setParent x y

/-- `RightRotate`. -/
def rightRotate (s : Set K) (y : Ptr) : Except Fault (Set K) := do
  let x := (← s.node y).left
  let s ← s.setLeft y (← s.node x).right
  let xr := (← s.node x).right
  let s ← if xr ≠ s.nil then s.setParent xr y else pure s
  let s ← s.setParent x (← s.node y).parent
  let s ← s.relink y x
  let s ← s.setRight x y
  s.setParent y x

/-! ### Insertion fix-up -/

/-- The red uncle `y` of `InsertFixup`. Returns the new `z`, the grandparent. -/
def insertRecolor (s : Set K) (z y : Ptr) : Except Fault (Set K × Ptr) := do
  let zp := (← s.node z).parent
  let s ← s.setRed zp false
  let s ← s.setRed y false
  let zpp := (← s.node zp).parent
  let s ← s.setRed zpp true
  return (s, zpp)

/-- `if (z == z->parent->right)`: `z` becomes its parent, which is rotated to the left. -/
def insertInnerLeft (s : Set K) (z : Ptr) : Except Fault (Set K × Ptr) := do
  let zp := (← s.node z).parent
  if z = (← s.node zp).right then
    let s ← s.leftRotate zp
    return (s, zp)
  else
    return (s, z)

/-- `if (z == z->parent->left)`: `z` becomes its parent, which is rotated to the right. -/
def insertInnerRight (s : Set K) (z : Ptr) : Except Fault (Set K × Ptr) := do
  let zp := (← s.node z).parent
  if z = (← s.node zp).left then
    let s ← s.rightRotate zp
    return (s, zp)
  else
    return (s, z)

/-- The last case for a parent that is a left child: the grandparent is rotated to the right. -/
def insertOuterLeft (s : Set K) (z : Ptr) : Except Fault (Set K) := do
  let zp := (← s.node z).parent
  let s ← s.setRed zp false
  let zpp := (← s.node zp).parent
  let s ← s.setRed zpp true
  s.rightRotate zpp

/-- The last case for a parent that is a right child: the grandparent is rotated to the left. -/
def insertOuterRight (s : Set K) (z : Ptr) : Except Fault (Set K) := do
  let zp := (← s.node z).parent
  let s ← s.setRed zp false
  let zpp := (← s.node zp).parent
  let s ← s.setRed zpp true
  s.leftRotate zpp

/-- A round of `InsertFixup` for a parent that is a left child. Returns the new `z`. -/
def insertFixupLeft (s : Set K) (z : Ptr) : Except Fault (Set K × Ptr) := do
  let zp := (← s.node z).parent
  let zpp := (← s.node zp).parent
  let y := (← s.node zpp).right
  if (← s.node y).isRed then
    s.insertRecolor z y
  else
    let (s, z) ← s.insertInnerLeft z
    let s ← s.insertOuterLeft z
    return (s, z)

/-- A round of `InsertFixup` for a parent that is a right child. -/
def insertFixupRight (s : Set K) (z : Ptr) : Except Fault (Set K × Ptr) := do
  let zp := (← s.node z).parent
  let zpp := (← s.node zp).parent
  let y := (← s.node zpp).left
  if (← s.node y).isRed then
    s.insertRecolor z y
  else
    let (s, z) ← s.insertInnerRight z
    let s ← s.insertOuterRight z
    return (s, z)

/-- The loop of `InsertFixup`. -/
def insertFixupLoop : Nat → Set K → Ptr → Except Fault (Set K)
  | 0, _, _ => .error .fuel
  | fuel + 1, s, z => do
    let zp := (← s.node z).parent
    if (← s.node zp).isRed then
      let zpp := (← s.node zp).parent
      let (s, z) ←
        if zp = (← s.node zpp).left then s.insertFixupLeft z
        else s.insertFixupRight z
      insertFixupLoop fuel s z
    else
      return s

/-- `InsertFixup`. -/
def insertFixup (s : Set K) (z : Ptr) : Except Fault (Set K) := do
  let s ← insertFixupLoop s.fuel s z
  s.setRed s.root false

/-! ### Deletion fix-up -/

/-- The red sibling of an `x` that is a left child. Returns the sibling to go on with. -/
def deleteSiblingLeft (s : Set K) (x : Ptr) : Except Fault (Set K × Ptr) := do
  let xp := (← s.node x).parent
  let w := (← s.node xp).right
  if (← s.node w).isRed then
    let s ← s.setRed w false
    let s ← s.setRed xp true
    let s ← s.leftRotate xp
    return (s, (← s.node (← s.node x).parent).right)
  else
    return (s, w)

/-- The red sibling of an `x` that is a right child. -/
def deleteSiblingRight (s : Set K) (x : Ptr) : Except Fault (Set K × Ptr) := do
  let xp := (← s.node x).parent
  let w := (← s.node xp).left
  if (← s.node w).isRed then
    let s ← s.setRed w false
    let s ← s.setRed xp true
    let s ← s.rightRotate xp
    return (s, (← s.node (← s.node x).parent).left)
  else
    return (s, w)

/-- `if (!w->right->is_red)`: `w` is rotated to the right. Returns the sibling to go on with. -/
def deleteInnerLeft (s : Set K) (x w : Ptr) : Except Fault (Set K × Ptr) := do
  if (← s.node (← s.node w).right).isRed = false then
    let s ← s.setRed (← s.node w).left false
    let s ← s.setRed w true
    let s ← s.rightRotate w
    return (s, (← s.node (← s.node x).parent).right)
  else
    return (s, w)

/-- `if (!w->left->is_red)`: `w` is rotated to the left. -/
def deleteInnerRight (s : Set K) (x w : Ptr) : Except Fault (Set K × Ptr) := do
  if (← s.node (← s.node w).left).isRed = false then
    let s ← s.setRed (← s.node w).right false
    let s ← s.setRed w true
    let s ← s.leftRotate w
    return (s, (← s.node (← s.node x).parent).left)
  else
    return (s, w)

/-- The last case for an `x` that is a left child: the parent is rotated to the left. -/
def deleteOuterLeft (s : Set K) (x w : Ptr) : Except Fault (Set K) := do
  let xp := (← s.node x).parent
  let s ← s.setRed w (← s.node xp).isRed
  let s ← s.setRed xp false
  let s ← s.setRed (← s.node w).right false
  s.leftRotate xp

/-- The last case for an `x` that is a right child: the parent is rotated to the right. -/
def deleteOuterRight (s : Set K) (x w : Ptr) : Except Fault (Set K) := do
  let xp := (← s.node x).parent
  let s ← s.setRed w (← s.node xp).isRed
  let s ← s.setRed xp false
  let s ← s.setRed (← s.node w).left false
  s.rightRotate xp

/-- A round of `DeleteFixup` for an `x` that is a left child. Returns the new `x`. -/
def deleteFixupLeft (s : Set K) (x : Ptr) : Except Fault (Set K × Ptr) := do
  let (s, w) ← s.deleteSiblingLeft x
  let wl := (← s.node w).left
  let wr := (← s.node w).right
  if (← s.node wl).isRed = false ∧ (← s.node wr).isRed = false then
    let s ← s.setRed w true
    return (s, (← s.node x).parent)
  else
    let (s, w) ← s.deleteInnerLeft x w
    let s ← s.deleteOuterLeft x w
    -- `x = root_` ends the loop.
    return (s, s.root)

/-- A round of `DeleteFixup` for an `x` that is a right child. -/
def deleteFixupRight (s : Set K) (x : Ptr) : Except Fault (Set K × Ptr) := do
  let (s, w) ← s.deleteSiblingRight x
  -- The source tests `w->left` first here too.
  let wl := (← s.node w).left
  let wr := (← s.node w).right
  if (← s.node wl).isRed = false ∧ (← s.node wr).isRed = false then
    let s ← s.setRed w true
    return (s, (← s.node x).parent)
  else
    let (s, w) ← s.deleteInnerRight x w
    let s ← s.deleteOuterRight x w
    -- `x = root_` ends the loop.
    return (s, s.root)

/-- The loop of `DeleteFixup`. Returns the `x` it ends at. -/
def deleteFixupLoop : Nat → Set K → Ptr → Except Fault (Set K × Ptr)
  | 0, _, _ => .error .fuel
  | fuel + 1, s, x => do
    if x ≠ s.root ∧ (← s.node x).isRed = false then
      let xp := (← s.node x).parent
      let (s, x) ←
        if x = (← s.node xp).left then s.deleteFixupLeft x
        else s.deleteFixupRight x
      deleteFixupLoop fuel s x
    else
      return (s, x)

/-- `DeleteFixup`. -/
def deleteFixup (s : Set K) (x : Ptr) : Except Fault (Set K) := do
  let (s, x) ← deleteFixupLoop s.fuel s x
  s.setRed x false

/-! ### Helper walks -/

/-- `Transplant`. -/
def transplant (s : Set K) (u v : Ptr) : Except Fault (Set K) := do
  let s ← s.relink u v
  s.setParent v (← s.node u).parent

/-- The loop of `Minimum`. -/
def minimumLoop : Nat → Set K → Ptr → Except Fault Ptr
  | 0, _, _ => .error .fuel
  | fuel + 1, s, p => do
    let l := (← s.node p).left
    if l ≠ s.nil then minimumLoop fuel s l else return p

/-- `Minimum`. -/
def minimum (s : Set K) (p : Ptr) : Except Fault Ptr := minimumLoop s.fuel s p

/-- `Clear(Node*)`: the recursion depth is the fuel. -/
def clearNode : Nat → Set K → Ptr → Except Fault (Set K)
  | 0, _, _ => .error .fuel
  | fuel + 1, s, p => do
    if p ≠ s.nil then
      let s ← clearNode fuel s (← s.node p).left
      let s ← clearNode fuel s (← s.node p).right
      s.deleteNode p
    else return s

/-! ### Public operations -/

/-- `End()`. -/
def endIt (s : Set K) : Iterator := s.nil

/-- `Clear()`. -/
def clear (s : Set K) : Except Fault (Set K) := do
  let s ← clearNode s.fuel s s.root
  return { s with root := s.nil, size := 0 }

/-- `Erase` at a node `z` with two children, with its successor `y`: `y` leaves its place to its
right child and takes over the right subtree of `z`. -/
def detachNext (s : Set K) (z y : Ptr) : Except Fault (Set K) := do
  let x := (← s.node y).right
  if (← s.node y).parent = z then
    s.setParent x y
  else
    let s ← s.transplant y x
    let s ← s.setRight y (← s.node z).right
    s.setParent (← s.node y).right y

/-- Then `y` takes the place, the left subtree and the colour of `z`. -/
def replaceBy (s : Set K) (z y : Ptr) : Except Fault (Set K) := do
  let s ← s.transplant z y
  let s ← s.setLeft y (← s.node z).left
  let s ← s.setParent (← s.node y).left y
  s.setRed y (← s.node z).isRed

/-- `Erase(position)` up to `delete z`. Returns `x`, the colour that left the tree, and the
set. -/
def unlink (s : Set K) (z : Ptr) : Except Fault (Ptr × Bool × Set K) := do
  let n ← s.node z
  if n.left = s.nil then
    let s ← s.transplant z n.right
    return (n.right, n.isRed, s)
  else if n.right = s.nil then
    let s ← s.transplant z n.left
    return (n.left, n.isRed, s)
  else
    let y ← s.minimum n.right
    let ny ← s.node y
    let s ← s.detachNext z y
    let s ← s.replaceBy z y
    return (ny.right, ny.isRed, s)

/-- `DeleteFixup(x)`, if the colour that left the tree is black. -/
def fixupAfter (s : Set K) (yOriginalColor : Bool) (x : Ptr) : Except Fault (Set K) :=
  if yOriginalColor = false then s.deleteFixup x else .ok s

/-- `Erase(position)`. -/
def eraseAt (s : Set K) (position : Iterator) : Except Fault (Iterator × Set K) := do
  if position = s.endIt then
    return (nullptr, s)
  else
    let z := position
    let (x, yOriginalColor, s) ← s.unlink z
    let s ← s.deleteNode z
    let s ← fixupAfter { s with size := s.size - 1 } yOriginalColor x
    return (x, s)

section
variable (compare : K → K → Bool)

/-- The search loop of `Insert` and `Find`. -/
def searchLoop : Nat → Set K → K → Ptr → Ptr → Except Fault Map.Search
  | 0, _, _, _, _ => .error .fuel
  | fuel + 1, s, val, x, y => do
    if x ≠ s.nil then
      let n ← s.node x
      if compare val n.key then searchLoop fuel s val n.left x
      else if compare n.key val then searchLoop fuel s val n.right x
      else return .found x
    else return .absent y

/-- `Find`. -/
def find (s : Set K) (val : K) : Except Fault Iterator := do
  match ← searchLoop compare s.fuel s val s.root s.nil with
  | .found x => return x
  | .absent _ => return s.endIt

/-- `Count`. -/
def count (s : Set K) (val : K) : Except Fault Nat := do
  return if (← s.find compare val) ≠ s.endIt then 1 else 0

/-- The loop of `LowerBound` and `UpperBound`: `goLeft` says of a key whether its node becomes
the result. -/
def boundLoop (goLeft : K → Bool) : Nat → Set K → Ptr → Ptr → Except Fault Ptr
  | 0, _, _, _ => .error .fuel
  | fuel + 1, s, current, result => do
    if current ≠ s.nil then
      let n ← s.node current
      if goLeft n.key then boundLoop goLeft fuel s n.left current
      else boundLoop goLeft fuel s n.right result
    else return result

/-- `LowerBound`. -/
def lowerBound (s : Set K) (val : K) : Except Fault Iterator :=
  boundLoop (fun k => !compare k val) s.fuel s s.root s.nil

/-- `UpperBound`. -/
def upperBound (s : Set K) (val : K) : Except Fault Iterator :=
  boundLoop (fun k => compare val k) s.fuel s s.root s.nil

/-- `z` becomes the root, or the child of `y` on the side that its key belongs to. -/
def linkBelow (s : Set K) (z y : Ptr) : Except Fault (Set K) := do
  if y = s.nil then return { s with root := z }
  else if compare (← s.node z).key (← s.node y).key then s.setLeft y z
  else s.setRight y z

/-- The second half of `Insert`: the new node `z` becomes a red leaf below `y`. -/
def attach (s : Set K) (z y : Ptr) : Except Fault (Set K) := do
  let s ← s.setParent z y
  let s ← linkBelow compare s z y
  let s ← s.setLeft z s.nil
  let s ← s.setRight z s.nil
  let s ← s.setRed z true
  let s ← s.insertFixup z
  return { s with size := s.size + 1 }

/-- `Insert(val)`. -/
def insert (s : Set K) (val : K) : Except Fault (Iterator × Bool × Set K) := do
  let (z, s) := s.newNode val
  match ← searchLoop compare s.fuel s val s.root s.nil with
  | .found x =>
    let s ← s.deleteNode z
    return (x, false, s)
  | .absent y =>
    let s ← s.attach compare z y
    return (z, true, s)

/-- `Erase(val)`. -/
def erase (s : Set K) (val : K) : Except Fault (Nat × Set K) := do
  let it ← s.find compare val
  if it ≠ s.endIt then
    let (_, s) ← s.eraseAt it
    return (1, s)
  else return (0, s)

end

end Set

end KernelEventsTrace.Driver.Std
