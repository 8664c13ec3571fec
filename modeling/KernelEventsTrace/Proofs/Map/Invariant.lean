import KernelEventsTrace.Lib.OrdMap
import KernelEventsTrace.Proofs.Map.Rotate

/-!
# `KernelEventsTrace.Proofs.Map.Invariant`: the well-formed maps

`Map.WF compare m t` is the invariant of the class: the map represents the tree `t`, the tree
is red-black and sorted, and `size_` counts its nodes. `Map.WF.height_le` bounds the height.

`Map.Evolves m t m' t'` is the frame of a public member function. A function may write the
sentinel and the nodes of its own tree, and a new tree consists of old nodes and of nodes
that were allocated by the call. So maps that share no node stay apart
(`Map.WF.of_evolves`).
-/

set_option autoImplicit false

namespace KernelEventsTrace.Driver.Std.Map

open KernelEventsTrace.RedBlack

variable {K V : Type}

/-- The keys of the in-order sequence increase strictly. -/
def Sorted (compare : K → K → Bool) (l : List (Entry K V)) : Prop :=
  l.Pairwise fun a b => compare a.key b.key = true

/-- The invariant of the class: the represented tree is red-black and sorted, and `size_`
counts its nodes. -/
structure WF (compare : K → K → Bool) (m : Map K V) (t : RbTree (Entry K V)) : Prop where
  rep : m.Rep t
  redBlack : t.IsRedBlack
  sorted : Sorted compare t.toList
  size : m.size = t.toList.length

/-- What a member function may change: its own sentinel, its own nodes, and new memory. -/
structure Evolves (m : Map K V) (t : RbTree (Entry K V)) (m' : Map K V)
    (t' : RbTree (Entry K V)) : Prop where
  nil : m'.nil = m.nil
  next : m.heap.next ≤ m'.heap.next
  frame : ∀ q, q < m.heap.next → q ≠ m.nil → q ∉ treeAddrs t → m'.heap.get q = m.heap.get q
  fresh : ∀ a, a ∈ treeAddrs t' → a ∈ treeAddrs t ∨ m.heap.next ≤ a

variable {compare : K → K → Bool}

/-- The height of a map is at most `2 * log2 (size_ + 1)`. -/
theorem WF.height_le {m : Map K V} {t : RbTree (Entry K V)} (h : m.WF compare t) :
    t.height ≤ 2 * Nat.log2 (m.size + 1) := by
  rw [h.size]
  exact h.redBlack.height_le

/-- The loops of a member function get more rounds than the tree is high. -/
theorem WF.height_lt_fuel {m : Map K V} {t : RbTree (Entry K V)} (h : m.WF compare t) :
    t.height < m.fuel := by
  have := RbTree.height_le_length t
  have := h.size
  unfold fuel
  omega

/-- Every node of a map lies in memory that was handed out. -/
theorem Rep.lt_next {m : Map K V} {t : RbTree (Entry K V)} (h : m.Rep t) {a : Nat}
    (ha : a ∈ treeAddrs t) : a < m.heap.next := by
  obtain ⟨n, hn⟩ := Option.isSome_iff_exists.mp (h.cells.get_isSome ha)
  exact Heap.lt_next_of_get hn

/-- The sentinel of a map lies in memory that was handed out. -/
theorem Rep.nil_lt_next {m : Map K V} {t : RbTree (Entry K V)} (h : m.Rep t) :
    m.nil < m.heap.next := by
  obtain ⟨n, hn, -⟩ := h.nilCell
  exact Heap.lt_next_of_get hn

/-- The sentinel is not the null pointer. -/
theorem Rep.nil_ne_nullptr {m : Map K V} {t : RbTree (Entry K V)} (h : m.Rep t) :
    m.nil ≠ nullptr := by
  obtain ⟨n, hn, -⟩ := h.nilCell
  intro hnull
  rw [hnull] at hn
  cases hn

/-- A representation depends on the memory of its own nodes and sentinel only. -/
theorem Rep.congr {m : Map K V} {k : Heap K V} {t : RbTree (Entry K V)} (h : m.Rep t)
    (hg : ∀ a, a = m.nil ∨ a ∈ treeAddrs t → k.get a = m.heap.get a) :
    Rep { m with heap := k } t := by
  refine ⟨h.root, h.cells.congr fun a ha => hg a (Or.inr ha), h.nodup, h.nil_notMem, ?_⟩
  show ∃ n, k.get m.nil = some n ∧ _
  rw [hg m.nil (Or.inl rfl)]
  exact h.nilCell

/-- An invariant depends on the memory of the map's own nodes and sentinel only. -/
theorem WF.congr {m : Map K V} {k : Heap K V} {t : RbTree (Entry K V)} (h : m.WF compare t)
    (hg : ∀ a, a = m.nil ∨ a ∈ treeAddrs t → k.get a = m.heap.get a) :
    WF compare { m with heap := k } t :=
  ⟨h.rep.congr hg, h.redBlack, h.sorted, h.size⟩

/-- A function that changes nothing. -/
theorem Evolves.refl (m : Map K V) (t : RbTree (Entry K V)) : Evolves m t m t :=
  ⟨rfl, Nat.le_refl _, fun _ _ _ _ => rfl, fun _ ha => Or.inl ha⟩

end KernelEventsTrace.Driver.Std.Map
