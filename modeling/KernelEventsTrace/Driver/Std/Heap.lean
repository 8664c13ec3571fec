import Mathlib.Data.List.Basic
import KernelEventsTrace.Lib.RedBlack.Zipper

/-!
# `KernelEventsTrace.Driver.Std.Heap`: the pool memory that tree nodes live in

`Map` (`driver/std/map/map.h`) links its nodes with raw pointers, `new` and `delete`. The
memory is a list of cells. The node at address `p + 1` is cell `p`, and address 0 is the
null pointer. `new` appends a cell, so an address is never handed out twice. `delete`
empties a cell. A read through a null, unknown or deleted pointer is a `Fault.deref`.

`Heap.get` is the only way to look at the memory. Its equations for `put` and `alloc` are
what every proof about a pointer program uses.
-/

set_option autoImplicit false

namespace KernelEventsTrace.Driver.Std

open KernelEventsTrace.RedBlack (Side)

/-- The address of a node. -/
abbrev Ptr := Nat

/-- The null pointer. -/
def nullptr : Ptr := 0

/-- `Map::Node`: the entry, the colour, and the three links. -/
structure Node (K V : Type) where
  key : K
  val : V
  isRed : Bool
  parent : Ptr
  left : Ptr
  right : Ptr
  deriving Repr, DecidableEq

/-- Why a pointer program stops without a result. -/
inductive Fault where
  /-- A null, unknown or deleted pointer was dereferenced or deleted. -/
  | deref
  /-- A rotation was asked for around `nil_`, or would put `nil_` above a node. The C++
  code has no such test. It is here to make the fault visible in a run. -/
  | rotateNil
  /-- A loop or recursion was cut off after the number of rounds it was given. -/
  | fuel
  deriving Repr, DecidableEq

variable {K V : Type}

/-- The link to the child on side `d`. -/
def Node.child (d : Side) (n : Node K V) : Ptr :=
  match d with
  | .left => n.left
  | .right => n.right

/-- The node with another child on side `d`. -/
def Node.setChild (d : Side) (p : Ptr) (n : Node K V) : Node K V :=
  match d with
  | .left => { n with left := p }
  | .right => { n with right := p }

/-- The new left child. -/
@[simp] theorem Node.setChild_left (p : Ptr) (n : Node K V) :
    (n.setChild .left p).left = p := rfl

/-- The new right child. -/
@[simp] theorem Node.setChild_right (p : Ptr) (n : Node K V) :
    (n.setChild .right p).right = p := rfl

/-- The memory: cell `p` is the node at address `p + 1`, if it is not deleted. -/
structure Heap (K V : Type) where
  cells : List (Option (Node K V))
  deriving Repr, DecidableEq

namespace Heap

/-- The node at an address. -/
def get (h : Heap K V) : Ptr → Option (Node K V)
  | 0 => none
  | p + 1 => (h.cells[p]?).join

/-- The address that the next `new` returns. -/
def next (h : Heap K V) : Nat := h.cells.length + 1

/-- Write a cell, or empty it with `none`. -/
def put (h : Heap K V) (p : Ptr) (c : Option (Node K V)) : Heap K V :=
  match p with
  | 0 => h
  | p + 1 => ⟨h.cells.set p c⟩

/-- `new Node`: the node goes to the address `h.next`. -/
def alloc (h : Heap K V) (n : Node K V) : Heap K V := ⟨h.cells ++ [some n]⟩

/-- No node is at the null address. -/
@[simp] theorem get_zero (h : Heap K V) : h.get 0 = none := rfl

/-- No node is at an address that was not handed out yet. -/
theorem get_of_next_le (h : Heap K V) {p : Nat} (hp : h.next ≤ p) : h.get p = none := by
  cases p with
  | zero => rfl
  | succ p =>
    have hlen : h.cells.length ≤ p := by simp only [next] at hp; omega
    simp [get, List.getElem?_eq_none hlen]

/-- A node is only at an address that was handed out. -/
theorem lt_next_of_get {h : Heap K V} {p : Nat} {n : Node K V} (hp : h.get p = some n) :
    p < h.next := by
  by_contra hle
  rw [h.get_of_next_le (by omega)] at hp
  cases hp

/-- Reading after a write to an address that was handed out. -/
theorem get_put {h : Heap K V} {p : Nat} (hp : 0 < p) (hn : p < h.next)
    (c : Option (Node K V)) (q : Nat) :
    (h.put p c).get q = if q = p then c else h.get q := by
  cases p with
  | zero => omega
  | succ p =>
    cases q with
    | zero => simp [get]
    | succ q =>
      have hlen : p < h.cells.length := by simp only [next] at hn; omega
      show ((h.cells.set p c)[q]?).join = _
      rw [List.getElem?_set]
      by_cases hqp : q = p
      · subst hqp
        simp [hlen]
      · have hne : p ≠ q := fun h => hqp h.symm
        simp [hqp, hne, get]

/-- Reading after a write to a cell that holds a node. -/
theorem get_put_of_get {h : Heap K V} {p : Nat} {n : Node K V} (hp : h.get p = some n)
    (c : Option (Node K V)) (q : Nat) :
    (h.put p c).get q = if q = p then c else h.get q := by
  have hpos : 0 < p := by
    cases p with
    | zero => simp at hp
    | succ p => omega
  exact get_put hpos (lt_next_of_get hp) c q

/-- A write makes no new address. -/
@[simp] theorem next_put (h : Heap K V) (p : Ptr) (c : Option (Node K V)) :
    (h.put p c).next = h.next := by
  cases p with
  | zero => rfl
  | succ p => simp [put, next]

/-- An allocation takes the next address. -/
@[simp] theorem next_alloc (h : Heap K V) (n : Node K V) : (h.alloc n).next = h.next + 1 := by
  simp [alloc, next]

/-- Reading after `new`. -/
theorem get_alloc (h : Heap K V) (n : Node K V) (q : Nat) :
    (h.alloc n).get q = if q = h.next then some n else h.get q := by
  cases q with
  | zero => simp [next]
  | succ q =>
    show ((h.cells ++ [some n])[q]?).join = _
    rw [List.getElem?_append]
    by_cases hq : q < h.cells.length
    · have hne : q ≠ h.cells.length := by omega
      simp [hq, next, get, hne]
    · by_cases heq : q = h.cells.length
      · subst heq
        simp [next]
      · have hgt : h.cells.length < q := by omega
        have hnone : ([some n] : List (Option (Node K V)))[q - h.cells.length]? = none :=
          List.getElem?_eq_none (by simp only [List.length_singleton]; omega)
        simp [hq, next, get, heq, hnone]

end Heap

end KernelEventsTrace.Driver.Std
