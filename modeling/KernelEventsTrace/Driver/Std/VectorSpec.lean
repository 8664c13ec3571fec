import KernelEventsTrace.Driver.Std.Vector

/-!
# `KernelEventsTrace.Driver.Std.VectorSpec`: what a vector is for

The vectors of a program as lists. `stepLists` is what the member functions are meant to do with
the elements, and `runLists` a sequence of such calls.
-/

set_option autoImplicit false

namespace KernelEventsTrace.Driver.Std

variable {α : Type}

/-- The elements `i` and `j` exchanged, if both exist. -/
def swapAt (l : List α) (i j : Nat) : List α :=
  match l[i]?, l[j]? with
  | some a, some b => (l.set i b).set j a
  | _, _ => l

/-- The element `i` replaced by the last one, and the last one dropped. -/
def replaceByLast (l : List α) (i : Nat) : List α :=
  if i < l.length then
    match l.getLast? with
    | some a => (l.set i a).dropLast
    | none => l
  else l

/-- The first `n` elements, and as many values `a` as are missing. -/
def resizeTo (l : List α) (n : Nat) (a : α) : List α := l.take n ++ List.replicate (n - l.length) a

/-- A call that changes the list `i`, if there is one. -/
def onList (ls : List (List α)) (i : Nat) (f : List α → List α) : List (List α) :=
  match ls[i]? with
  | none => ls
  | some l => ls.set i (f l)

/-- A call that makes a list from the list `i`, if there is one. -/
def fromList (ls : List (List α)) (i : Nat) (f : List α → List (List α)) : List (List α) :=
  match ls[i]? with
  | none => ls
  | some l => f l

/-- The lists after a call. -/
def stepLists [Inhabited α] (ls : List (List α)) : VectorOp α → List (List α)
  | .construct => ls ++ [[]]
  | .constructSize s => ls ++ [List.replicate s.toNat default]
  | .copyConstruct j => fromList ls j fun m => ls ++ [m]
  | .assign i j => fromList ls j fun m => onList ls i fun _ => m
  | .reserve _ _ => ls
  | .resize i n val => onList ls i fun l => resizeTo l n.toNat val
  | .clear i => onList ls i fun _ => []
  | .pushBack i d => onList ls i fun l => l ++ [d]
  | .pushBackElement i j k _ => fromList ls j fun m =>
    match m[k.toNat]? with
    | some a => onList ls i fun l => l ++ [a]
    | none => ls
  | .popBack i => onList ls i List.dropLast
  | .append i j => fromList ls j fun m => onList ls i fun l => l ++ m
  | .addAssign i j => fromList ls j fun m => onList ls i fun l => l ++ m
  | .plus i j => fromList ls j fun m => fromList ls i fun l => ls ++ [l ++ m]
  | .swap i a b => onList ls i fun l => swapAt l a.toNat b.toNat
  | .erase i n => onList ls i fun l => l.eraseIdx n.toNat
  | .eraseUnordered i n => onList ls i fun l => replaceByLast l n.toNat

/-- The lists after a sequence of calls, from none. -/
def runLists [Inhabited α] (ops : List (VectorOp α)) : List (List α) := ops.foldl stepLists []

end KernelEventsTrace.Driver.Std
