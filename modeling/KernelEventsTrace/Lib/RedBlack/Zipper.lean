import Mathlib.Algebra.Group.Nat.Defs
import Mathlib.Data.Nat.Log
import Mathlib.Data.List.Basic

/-!
# `KernelEventsTrace.Lib.RedBlack.Zipper`: coloured trees and the path to a node

A coloured binary tree over any element type, and the zipper of a position in it: the
subtree at the position and the list of frames above it, innermost first. The zipper is
the shape of every loop that walks a tree with parent pointers.

* `RbTree.Valid t n`: no red node has a red child, and every path to a leaf has `n` black
  nodes.
* `RbPath.Valid p n`: the path `p` is what a valid tree leaves around a hole of black height
  `n`. `isRedBlack_plug_iff` splits the red-black property of a whole tree into the
  property of the path and of the subtree in its hole.
* `RbTree.IsRedBlack.height_le`: the height is at most `2 * log2 (size + 1)`.

Mirror images are one statement here. `Side` names a child and `RbTree.join` builds a node
from a child, the side it goes to, and its sibling.
-/

set_option autoImplicit false

namespace KernelEventsTrace.RedBlack

/-- The side of a child below its parent. -/
inductive Side where
  | left
  | right
  deriving DecidableEq, Repr

/-- The other side. -/
def Side.flip : Side → Side
  | .left => .right
  | .right => .left

/-- Both flips give the side back. -/
@[simp] theorem Side.flip_flip (d : Side) : d.flip.flip = d := by cases d <;> rfl

/-- The other side is another one. -/
@[simp] theorem Side.flip_ne (d : Side) : d.flip ≠ d := by cases d <;> simp [Side.flip]

/-- A side is one of a given side and its flip. -/
theorem Side.eq_or_eq_flip (d e : Side) : d = e ∨ d = e.flip := by
  cases d <;> cases e <;> simp [Side.flip]

/-- A side that is not the left one is the right one. -/
theorem Side.eq_right {d : Side} (h : d ≠ .left) : d = .right := by
  cases d with
  | left => exact absurd rfl h
  | right => rfl

/-- A binary tree with a colour on every node. -/
inductive RbTree (α : Type) where
  | nil
  | node (isRed : Bool) (l : RbTree α) (a : α) (r : RbTree α)
  deriving Repr

/-- One step of the path from a hole up to the root: the side of the hole, and the colour,
the element and the other child of the node above it. -/
structure Frame (α : Type) where
  side : Side
  isRed : Bool
  elem : α
  sib : RbTree α

/-- The path from a hole to the root, innermost frame first. -/
abbrev RbPath (α : Type) := List (Frame α)

variable {α : Type}

namespace RbTree

/-- The node whose child on side `d` is `t`, and whose other child is `u`. -/
def join (d : Side) (isRed : Bool) (t : RbTree α) (a : α) (u : RbTree α) : RbTree α :=
  match d with
  | .left => node isRed t a u
  | .right => node isRed u a t

/-- Both children of a node may be named first. -/
theorem join_flip (d : Side) (c : Bool) (t : RbTree α) (a : α) (u : RbTree α) :
    join d.flip c t a u = join d c u a t := by cases d <;> rfl

/-- The colour of the root. A leaf is black. -/
def isRed : RbTree α → Bool
  | nil => false
  | node c _ _ _ => c

/-- The empty tree is black. -/
@[simp] theorem isRed_nil : (nil : RbTree α).isRed = false := rfl

/-- The colour of a tree is that of its root. -/
@[simp] theorem isRed_node (c : Bool) (l : RbTree α) (a : α) (r : RbTree α) :
    (node c l a r).isRed = c := rfl

/-- The colour of a join. -/
@[simp] theorem isRed_join (d : Side) (c : Bool) (t : RbTree α) (a : α) (u : RbTree α) :
    (join d c t a u).isRed = c := by cases d <;> rfl

/-- The tree with a root of colour `c`. A leaf stays a leaf. -/
def paint (c : Bool) : RbTree α → RbTree α
  | nil => nil
  | node _ l a r => node c l a r

/-- The empty tree has no colour to change. -/
@[simp] theorem paint_nil (c : Bool) : paint c (nil : RbTree α) = nil := rfl

/-- A new colour for the root. -/
@[simp] theorem paint_node (c c' : Bool) (l : RbTree α) (a : α) (r : RbTree α) :
    paint c (node c' l a r) = node c l a r := rfl

/-- A new colour for a join. -/
@[simp] theorem paint_join (d : Side) (c c' : Bool) (t : RbTree α) (a : α) (u : RbTree α) :
    paint c (join d c' t a u) = join d c t a u := by cases d <;> rfl

/-- Painting a tree in the colour of its root changes nothing. -/
theorem paint_isRed (t : RbTree α) : t.paint t.isRed = t := by cases t <;> rfl

/-- The in-order sequence of elements. -/
def toList : RbTree α → List α
  | nil => []
  | node _ l a r => l.toList ++ a :: r.toList

/-- The empty tree has no elements. -/
@[simp] theorem toList_nil : (nil : RbTree α).toList = [] := rfl

/-- The elements in order. -/
@[simp] theorem toList_node (c : Bool) (l : RbTree α) (a : α) (r : RbTree α) :
    (node c l a r).toList = l.toList ++ a :: r.toList := rfl

/-- The colour is not part of the elements. -/
@[simp] theorem toList_paint (c : Bool) (t : RbTree α) : (t.paint c).toList = t.toList := by
  cases t <;> rfl

/-- A rotation keeps the in-order sequence, in whatever colours. -/
theorem toList_join_join (d : Side) (c1 c2 c3 c4 : Bool) (t1 t2 t3 : RbTree α) (a b : α) :
    (join d c1 (join d c2 t1 a t2) b t3).toList = (join d c3 t1 a (join d c4 t2 b t3)).toList := by
  cases d <;> simp [join]

/-- The in-order sequence of a node depends on its children by their own sequences only. -/
theorem toList_join_congr (d : Side) (c c' : Bool) {t t' u u' : RbTree α} (a : α)
    (ht : t.toList = t'.toList) (hu : u.toList = u'.toList) :
    (join d c t a u).toList = (join d c' t' a u').toList := by
  cases d <;> simp [join, ht, hu]

/-- The elements as a walk to side `d` meets them. -/
def toListTo (d : Side) (t : RbTree α) : List α :=
  match d with
  | .left => t.toList.reverse
  | .right => t.toList

/-- The empty tree has no elements, from either side. -/
@[simp] theorem toListTo_nil (d : Side) : (nil : RbTree α).toListTo d = [] := by cases d <;> rfl

/-- The elements from a side, the far subtree first. -/
theorem toListTo_join (d : Side) (c : Bool) (t : RbTree α) (a : α) (u : RbTree α) :
    (join d c t a u).toListTo d = u.toListTo d ++ a :: t.toListTo d := by
  cases d with
  | left =>
    show (t.toList ++ a :: u.toList).reverse = _
    simp [toListTo]
  | right => rfl

/-- The number of nodes on the longest path from the root. -/
def height : RbTree α → Nat
  | nil => 0
  | node _ l _ r => max l.height r.height + 1

/-- The height of a join. -/
@[simp] theorem height_join (d : Side) (c : Bool) (t : RbTree α) (a : α) (u : RbTree α) :
    (join d c t a u).height = max t.height u.height + 1 := by
  cases d with
  | left => rfl
  | right =>
    show max u.height t.height + 1 = _
    rw [Nat.max_comm]

/-- The height is at most the number of nodes. -/
theorem height_le_length (t : RbTree α) : t.height ≤ t.toList.length := by
  induction t with
  | nil => simp [height]
  | node c l a r ihl ihr =>
    simp only [height, toList_node, List.length_append, List.length_cons]
    omega

/-- Every path to a leaf has `n` black nodes, and no red node has a red child. -/
def Valid : RbTree α → Nat → Prop
  | nil, n => n = 0
  | node true l _ r, n => l.isRed = false ∧ r.isRed = false ∧ l.Valid n ∧ r.Valid n
  | node false l _ r, n => ∃ m, n = m + 1 ∧ l.Valid m ∧ r.Valid m

/-- The empty tree has no black nodes. -/
@[simp] theorem valid_nil (n : Nat) : (nil : RbTree α).Valid n ↔ n = 0 := Iff.rfl

/-- A red root has black children of its own black height. -/
@[simp] theorem valid_red (d : Side) (t : RbTree α) (a : α) (u : RbTree α) (n : Nat) :
    (join d true t a u).Valid n ↔
      t.isRed = false ∧ u.isRed = false ∧ t.Valid n ∧ u.Valid n := by
  cases d <;> simp only [join, Valid]
  tauto

/-- A black root adds one to the black height. -/
@[simp] theorem valid_black (d : Side) (t : RbTree α) (a : α) (u : RbTree α) (n : Nat) :
    (join d false t a u).Valid n ↔ ∃ m, n = m + 1 ∧ t.Valid m ∧ u.Valid m := by
  cases d <;> simp only [join, Valid]
  constructor <;> rintro ⟨m, rfl, h1, h2⟩ <;> exact ⟨m, rfl, h2, h1⟩

/-- The black height of a black node over children of black height `n`. -/
theorem valid_black_succ (d : Side) (t : RbTree α) (a : α) (u : RbTree α) (n : Nat) :
    (join d false t a u).Valid (n + 1) ↔ t.Valid n ∧ u.Valid n := by
  rw [valid_black]
  constructor
  · rintro ⟨m, hm, h1, h2⟩
    obtain rfl : n = m := by omega
    exact ⟨h1, h2⟩
  · rintro ⟨h1, h2⟩
    exact ⟨n, rfl, h1, h2⟩

/-- A red root made black adds one black node to every path. -/
theorem Valid.paint_black_of_red {t : RbTree α} {n : Nat} (h : t.Valid n)
    (hr : t.isRed = true) : (t.paint false).Valid (n + 1) := by
  cases t with
  | nil => simp at hr
  | node c l a r =>
    simp only [isRed_node] at hr
    subst hr
    obtain ⟨-, -, hl, hr⟩ := h
    exact ⟨n, rfl, hl, hr⟩

/-- A nonempty tree, written with its child on side `d` first. -/
theorem exists_join_of_ne_nil {t : RbTree α} (h : t ≠ nil) (d : Side) :
    ∃ c t1 a t2, t = join d c t1 a t2 := by
  cases t with
  | nil => exact absurd rfl h
  | node c l a r =>
    cases d with
    | left => exact ⟨c, l, a, r, rfl⟩
    | right => exact ⟨c, r, a, l, rfl⟩

/-- A node is not a leaf. -/
@[simp] theorem join_ne_nil (d : Side) (c : Bool) (t : RbTree α) (a : α) (u : RbTree α) :
    join d c t a u ≠ nil := by cases d <;> simp [join]

/-- A valid tree of positive black height is a node. -/
theorem Valid.exists_node {t : RbTree α} {n : Nat} (h : t.Valid (n + 1)) (d : Side) :
    ∃ c t1 a t2, t = join d c t1 a t2 := by
  refine exists_join_of_ne_nil ?_ d
  rintro rfl
  simp at h

/-- A red tree is a node, written with its child on side `d` first. -/
theorem exists_join_of_isRed {t : RbTree α} (h : t.isRed = true) (d : Side) :
    ∃ t1 a t2, t = join d true t1 a t2 := by
  have hne : t ≠ nil := by
    rintro rfl
    simp at h
  obtain ⟨c, t1, a, t2, rfl⟩ := exists_join_of_ne_nil hne d
  rw [isRed_join] at h
  subst h
  exact ⟨t1, a, t2, rfl⟩

/-- The red-black property of a whole tree: valid, with a black root. -/
def IsRedBlack (t : RbTree α) : Prop := t.isRed = false ∧ ∃ n, t.Valid n

/-- The black height bounds the height: at most every second node of a path is red. -/
theorem Valid.height_le {t : RbTree α} {n : Nat} (h : t.Valid n) :
    t.height ≤ 2 * n + (if t.isRed then 1 else 0) := by
  induction t generalizing n with
  | nil => simp [height]
  | node c l a r ihl ihr =>
    cases c with
    | true =>
      obtain ⟨hlr, hrr, hl, hr⟩ := h
      have h1 := ihl hl
      have h2 := ihr hr
      -- The children of a red node are black, so their bounds have no extra one.
      simp only [hlr, hrr, Bool.false_eq_true, if_false] at h1 h2
      simp only [height, isRed_node, if_true]
      omega
    | false =>
      obtain ⟨m, rfl, hl, hr⟩ := h
      have h1 := ihl hl
      have h2 := ihr hr
      simp only [height, isRed_node, Bool.false_eq_true, if_false]
      split at h1 <;> split at h2 <;> omega

/-- A tree of black height `n` has at least `2 ^ n - 1` nodes. -/
theorem Valid.two_pow_le {t : RbTree α} {n : Nat} (h : t.Valid n) :
    2 ^ n ≤ t.toList.length + 1 := by
  induction t generalizing n with
  | nil =>
    obtain rfl : n = 0 := h
    simp
  | node c l a r ihl ihr =>
    simp only [toList_node, List.length_append, List.length_cons]
    cases c with
    | true =>
      have := ihl h.2.2.1
      omega
    | false =>
      obtain ⟨m, rfl, hl, hr⟩ := h
      have h1 := ihl hl
      have h2 := ihr hr
      rw [Nat.pow_succ]
      omega

/-- The height of a red-black tree is at most twice the logarithm of its size plus one. -/
theorem IsRedBlack.height_le {t : RbTree α} (h : t.IsRedBlack) :
    t.height ≤ 2 * Nat.log2 (t.toList.length + 1) := by
  obtain ⟨hb, n, hv⟩ := h
  have hh := hv.height_le
  simp only [hb, Bool.false_eq_true, if_false, Nat.add_zero] at hh
  have hn : n ≤ Nat.log2 (t.toList.length + 1) :=
    (Nat.le_log2 (by omega)).mpr hv.two_pow_le
  omega

end RbTree

namespace Frame

/-- The node of the frame, with `t` in the hole. -/
def fill (f : Frame α) (t : RbTree α) : RbTree α := RbTree.join f.side f.isRed t f.elem f.sib

end Frame

namespace RbPath

/-- The whole tree: `t` in the hole of the path. -/
def plug : RbPath α → RbTree α → RbTree α
  | [], t => t
  | f :: p, t => plug p (f.fill t)

/-- The path of the root. -/
@[simp] theorem plug_nil (t : RbTree α) : plug [] t = t := rfl

/-- One frame is filled, and the rest of the path is around it. -/
@[simp] theorem plug_cons (f : Frame α) (p : RbPath α) (t : RbTree α) :
    plug (f :: p) t = plug p (f.fill t) := rfl

/-- A tree with a node in it is not a leaf. -/
theorem plug_ne_nil {p : RbPath α} {t : RbTree α} (h : t ≠ .nil) : plug p t ≠ .nil := by
  induction p generalizing t with
  | nil => exact h
  | cons f p ih => exact ih (RbTree.join_ne_nil _ _ _ _ _)

/-- A path in two parts is filled from the inside. -/
theorem plug_append (p q : RbPath α) (t : RbTree α) : plug (p ++ q) t = plug q (plug p t) := by
  induction p generalizing t with
  | nil => rfl
  | cons f p ih => exact ih _

/-- The elements in front of the hole, in order. -/
def before : RbPath α → List α
  | [] => []
  | f :: p =>
    match f.side with
    | .left => before p
    | .right => before p ++ (f.sib.toList ++ [f.elem])

/-- The elements behind the hole, in order. -/
def after : RbPath α → List α
  | [] => []
  | f :: p =>
    match f.side with
    | .left => f.elem :: f.sib.toList ++ after p
    | .right => after p

/-- The in-order sequence of a whole tree, split at the hole. -/
theorem toList_plug (p : RbPath α) (t : RbTree α) :
    (plug p t).toList = before p ++ t.toList ++ after p := by
  induction p generalizing t with
  | nil => simp [before, after]
  | cons f p ih =>
    rw [plug_cons, ih]
    cases hs : f.side <;> simp [Frame.fill, RbTree.join, before, after, hs]

/-- The in-order sequence of a whole tree, split at a node. -/
theorem toList_plug_node (p : RbPath α) (c : Bool) (l r : RbTree α) (e : α) :
    (plug p (.node c l e r)).toList = (before p ++ l.toList) ++ e :: (r.toList ++ after p) := by
  rw [toList_plug]
  simp

/-- The in-order sequence of a whole tree depends on the subtree in the hole by its own
sequence only. -/
theorem toList_plug_congr (p : RbPath α) {t u : RbTree α} (h : t.toList = u.toList) :
    (plug p t).toList = (plug p u).toList := by
  rw [toList_plug, toList_plug, h]

/-- What is in front of a subtree, for a path in two parts. -/
theorem before_append (p q : RbPath α) : before (p ++ q) = before q ++ before p := by
  induction p with
  | nil => simp [before]
  | cons f p ih => cases hs : f.side <;> simp [before, hs, ih]

/-- What is behind a subtree, for a path in two parts. -/
theorem after_append (p q : RbPath α) : after (p ++ q) = after p ++ after q := by
  induction p with
  | nil => simp [after]
  | cons f p ih => cases hs : f.side <;> simp [after, hs, ih]

/-- The elements on side `d` of the hole, the nearest first. -/
def beyond (d : Side) (p : RbPath α) : List α :=
  match d with
  | .left => (before p).reverse
  | .right => after p

/-- To the right is what comes behind. -/
@[simp] theorem beyond_right (p : RbPath α) : beyond .right p = after p := rfl

/-- To the left is what comes before, from the near end on. -/
@[simp] theorem beyond_left (p : RbPath α) : beyond .left p = (before p).reverse := rfl

/-- A hole on side `d` of the node above has the same elements beyond it as that node. -/
theorem beyond_cons_of_side {d : Side} {f : Frame α} {p : RbPath α} (hf : f.side = d) :
    beyond d (f :: p) = beyond d p := by
  subst hf
  cases hs : f.side <;> simp [beyond, before, after, hs]

/-- A hole on the other side of the node above has that node and its other subtree beyond it. -/
theorem beyond_cons_of_flip {d : Side} {f : Frame α} {p : RbPath α} (hf : f.side = d.flip) :
    beyond d (f :: p) = f.elem :: (f.sib.toListTo d ++ beyond d p) := by
  cases d with
  | left =>
    have hs : f.side = .right := hf
    simp [before, RbTree.toListTo, hs]
  | right =>
    have hs : f.side = .left := hf
    simp [after, RbTree.toListTo, hs]

/-- Nothing lies beyond the end of a path along side `d`. -/
theorem beyond_eq_nil {d : Side} {p : RbPath α} (hp : ∀ f ∈ p, f.side = d) :
    beyond d p = [] := by
  induction p with
  | nil => cases d <;> rfl
  | cons f p ih =>
    rw [beyond_cons_of_side (hp f List.mem_cons_self)]
    exact ih fun g hg => hp g (List.mem_cons_of_mem _ hg)

/-- A whole tree as a walk to side `d` meets it, split at the hole. -/
theorem toListTo_plug (d : Side) (p : RbPath α) (t : RbTree α) :
    (plug p t).toListTo d = (beyond d.flip p).reverse ++ t.toListTo d ++ beyond d p := by
  cases d with
  | left =>
    show (plug p t).toList.reverse = (after p).reverse ++ t.toList.reverse ++ (before p).reverse
    rw [toList_plug, List.reverse_append, List.reverse_append, List.append_assoc]
  | right =>
    show (plug p t).toList = (before p).reverse.reverse ++ t.toList ++ after p
    rw [toList_plug, List.reverse_reverse]

/-- A tree whose outermost path on side `d` ends at `y`, met by a walk that starts there. -/
theorem toListTo_plug_outermost {d : Side} {q : RbPath α} {c : Bool} {y : α} {u : RbTree α}
    (hq : ∀ f ∈ q, f.side = d.flip) :
    (plug q (RbTree.join d.flip c .nil y u)).toListTo d
      = y :: (u.toListTo d ++ beyond d q) := by
  rw [toListTo_plug, beyond_eq_nil hq, RbTree.join_flip, RbTree.toListTo_join]
  simp

/-- Every place of the in-order sequence is a position of the tree. -/
theorem exists_plug_of_toList {t : RbTree α} {pre post : List α} {a : α}
    (h : t.toList = pre ++ a :: post) :
    ∃ p c l r, t = plug p (.node c l a r) ∧ pre = before p ++ l.toList ∧
      post = r.toList ++ after p := by
  induction t generalizing pre post with
  | nil => simp at h
  | node c l b r ihl ihr =>
    rw [RbTree.toList_node] at h
    rcases List.append_eq_append_iff.mp h with ⟨mid, hpre, hmid⟩ | ⟨mid, hl, hmid⟩
    · -- `pre` reaches to the root or beyond.
      cases mid with
      | nil =>
        simp only [List.nil_append, List.cons.injEq, List.append_nil] at hmid hpre
        obtain ⟨rfl, rfl⟩ := hmid
        exact ⟨[], c, l, r, rfl, by simp [before, hpre], by simp [after]⟩
      | cons x mid =>
        simp only [List.cons_append, List.cons.injEq] at hmid
        obtain ⟨rfl, hr⟩ := hmid
        -- The place is in the right subtree.
        obtain ⟨p, c', l', r', rfl, hb, ha⟩ := ihr hr
        refine ⟨p ++ [⟨.right, c, b, l⟩], c', l', r', ?_, ?_, ?_⟩
        · rw [plug_append]
          rfl
        · rw [before_append, hpre, hb]
          simp [before]
        · rw [after_append, ha]
          simp [after]
    · cases mid with
      | nil =>
        simp only [List.nil_append, List.cons.injEq, List.append_nil] at hmid hl
        obtain ⟨rfl, rfl⟩ := hmid
        exact ⟨[], c, l, r, rfl, by simp [before, hl], by simp [after]⟩
      | cons x mid =>
        simp only [List.cons_append, List.cons.injEq] at hmid
        obtain ⟨rfl, rfl⟩ := hmid
        -- The place is in the left subtree.
        obtain ⟨p, c', l', r', rfl, hb, ha⟩ := ihl hl
        refine ⟨p ++ [⟨.left, c, b, r⟩], c', l', r', ?_, ?_, ?_⟩
        · rw [plug_append]
          rfl
        · rw [before_append, hb]
          simp [before]
        · rw [after_append, ha]
          simp [after]

/-- The two children of a node trade places as hole and sibling. -/
theorem plug_flip (d : Side) (c : Bool) (e : α) (t u : RbTree α) (p : RbPath α) :
    plug (⟨d.flip, c, e, t⟩ :: p) u = plug (⟨d, c, e, u⟩ :: p) t := by
  show plug p (RbTree.join d.flip c u e t) = plug p (RbTree.join d c t e u)
  rw [RbTree.join_flip]

/-- The node above the hole is red. Above the root there is the black sentinel. -/
def isRed : RbPath α → Bool
  | [] => false
  | f :: _ => f.isRed

/-- Above the root nothing is red. -/
@[simp] theorem isRed_nil : isRed ([] : RbPath α) = false := rfl

/-- The colour of the parent. -/
@[simp] theorem isRed_cons (f : Frame α) (p : RbPath α) : isRed (f :: p) = f.isRed := rfl

/-- What a valid tree with a black root leaves around a hole of black height `n`: each
sibling is valid, and a red node has a black sibling below it and a black node above it. -/
def Valid : RbPath α → Nat → Prop
  | [], _ => True
  | f :: p, n =>
    f.sib.Valid n ∧
    (if f.isRed then f.sib.isRed = false ∧ p ≠ [] ∧ isRed p = false ∧ Valid p n
     else Valid p (n + 1))

/-- The frames matter only by colour and sibling, not by element. -/
theorem valid_append_congr (p q : RbPath α) (f g : Frame α) (n : Nat)
    (hc : f.isRed = g.isRed) (hs : f.sib = g.sib) :
    Valid (p ++ f :: q) n ↔ Valid (p ++ g :: q) n := by
  induction p generalizing n with
  | nil => simp [Valid, hc, hs]
  | cons h p ih =>
    have hred : isRed (p ++ f :: q) = isRed (p ++ g :: q) := by
      cases p with
      | nil => simpa using hc
      | cons _ _ => rfl
    simp [Valid, ih, hred]

end RbPath

open RbPath RbTree

/-- A whole tree is red-black exactly when its path is valid around the black height of the
subtree in the hole, and that subtree is not red below a red node or at the root. -/
theorem isRedBlack_plug_iff (p : RbPath α) (t : RbTree α) :
    (plug p t).IsRedBlack ↔
      ∃ n, RbPath.Valid p n ∧ t.Valid n ∧ (t.isRed = true → p ≠ [] ∧ isRed p = false) := by
  induction p generalizing t with
  | nil =>
    simp only [plug_nil, IsRedBlack, RbPath.Valid, true_and, ne_eq, not_true_eq_false, false_and,
      imp_false, Bool.not_eq_true]
    constructor
    · rintro ⟨hb, n, hv⟩
      exact ⟨n, hv, hb⟩
    · rintro ⟨n, hv, hb⟩
      exact ⟨hb, n, hv⟩
  | cons f p ih =>
    obtain ⟨d, c, a, s⟩ := f
    rw [plug_cons, ih]
    cases c with
    | true =>
      -- A red frame passes the black height on and forbids red on both sides.
      simp only [Frame.fill, RbPath.Valid, valid_red, isRed_join, isRed_cons, if_true, ne_eq,
        forall_const, Bool.true_eq_false, and_false, imp_false, Bool.not_eq_true]
      constructor
      · rintro ⟨n, hp, ⟨ht, hs, htv, hsv⟩, hne, hred⟩
        exact ⟨n, ⟨hsv, hs, hne, hred, hp⟩, htv, ht⟩
      · rintro ⟨n, ⟨hsv, hs, hne, hred, hp⟩, htv, ht⟩
        exact ⟨n, hp, ⟨ht, hs, htv, hsv⟩, hne, hred⟩
    | false =>
      -- A black frame counts one and allows any colour below it.
      simp only [Frame.fill, RbPath.Valid, valid_black, isRed_join, isRed_cons,
        Bool.false_eq_true, if_false, false_implies, and_true, ne_eq, reduceCtorEq,
        not_false_eq_true, implies_true]
      constructor
      · rintro ⟨n, hp, m, rfl, htv, hsv⟩
        exact ⟨m, ⟨hsv, hp⟩, htv⟩
      · rintro ⟨m, ⟨hsv, hp⟩, htv⟩
        exact ⟨m + 1, hp, m, rfl, htv, hsv⟩

end KernelEventsTrace.RedBlack
