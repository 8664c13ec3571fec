import KernelEventsTrace.Proofs.Map.World

/-!
# `KernelEventsTrace.Proofs.Map.Copy`: copying a nonempty map does not end

`Copy` walks the source, but its leaf test compares with the sentinel of the destination. The
source ends in its own sentinel, which is its own left child. So the walk down to the left
never meets the sentinel of the destination (`copyNode_error`), and every number of rounds
is too small.

* `IsCopy` is what a copy should be: a well-formed map of its own with the same entries.
* `World.Reachable.not_copy`: no reachable nonempty map is ever copied, by the constructor or
  by the assignment.
-/

set_option autoImplicit false

namespace KernelEventsTrace.Driver.Std

open KernelEventsTrace.RedBlack
open KernelEventsTrace.RedBlack.RbPath (plug)
open KernelEventsTrace.OrdMap

variable {K V : Type} {compare : K → K → Bool}

namespace Map

/-- A set of addresses that the destination `m` does not own, and that `node->left` stays in. -/
structure ClosedLeft (m : Map K V) (S : Ptr → Prop) : Prop where
  ne_nil : ∀ a, S a → a ≠ m.nil
  left : ∀ a, S a → ∃ n, m.heap.get a = some n ∧ S n.left

/-- The set stays closed as long as its cells stay. -/
theorem ClosedLeft.congr {m m' : Map K V} {S : Ptr → Prop} (h : m.ClosedLeft S)
    (hnil : m'.nil = m.nil) (hg : ∀ a, S a → m'.heap.get a = m.heap.get a) : m'.ClosedLeft S := by
  refine ⟨fun a ha => ?_, fun a ha => ?_⟩
  · rw [hnil]
    exact h.ne_nil a ha
  · rw [hg a ha]
    exact h.left a ha

/-- The set lies in memory that was handed out. -/
theorem ClosedLeft.lt_next {m : Map K V} {S : Ptr → Prop} (h : m.ClosedLeft S) {a : Ptr}
    (ha : S a) : a < m.heap.next := by
  obtain ⟨n, hn, -⟩ := h.left a ha
  exact Heap.lt_next_of_get hn

/-- `Copy` never returns from an address of such a set. The induction is on the rounds: the
copy of a node starts with the copy of its left child. -/
theorem copyNode_error (fuel : Nat) :
    ∀ {m : Map K V} {S : Ptr → Prop} {p parent : Ptr},
      m.ClosedLeft S → S p → copyNode fuel m p parent = .error .fuel := by
  induction fuel with
  | zero => intros; rfl
  | succ fuel ih =>
    intro m S p parent h hp
    obtain ⟨n, hn, hleft⟩ := h.left p hp
    have hq := m.newNode_get n.key n.val
    -- The new node lies outside the set.
    have hne : ∀ a, S a → a ≠ m.heap.next := fun a ha => Nat.ne_of_lt (h.lt_next ha)
    have h0 : (m.newNode n.key n.val).2.ClosedLeft S := h.congr rfl fun a ha => by
      show (m.heap.alloc _).get a = _
      rw [Heap.get_alloc, if_neg (hne a ha)]
    obtain ⟨m1, hm1, hobj1, -, hget1⟩ := update_spec hq fun k => { k with isRed := n.isRed }
    have h1 : m1.ClosedLeft S := h0.congr (congrArg MapObj.nil hobj1) fun a ha => by
      rw [hget1, if_neg (hne a ha)]
    have hq1 := hget1 m.heap.next
    rw [if_pos rfl] at hq1
    obtain ⟨m2, hm2, hobj2, -, hget2⟩ := update_spec hq1 fun k => { k with parent := parent }
    have h2 : m2.ClosedLeft S := h1.congr (congrArg MapObj.nil hobj2) fun a ha => by
      rw [hget2, if_neg (hne a ha)]
    have hn0 : (m.newNode n.key n.val).2.node p = .ok n := by
      rw [node_eq_ok]
      show (m.heap.alloc _).get p = _
      rw [Heap.get_alloc, if_neg (hne p hp), hn]
    have hn2 : m2.node p = .ok n := by
      rw [node_eq_ok, hget2, if_neg (hne p hp), hget1, if_neg (hne p hp)]
      exact node_eq_ok.mp hn0
    have hrec : copyNode fuel m2 n.left m.heap.next = .error .fuel := ih h2 hleft
    unfold copyNode
    rw [if_neg (h.ne_nil p hp)]
    simp only [node_of_get hn, bind, Except.bind]
    simp only [newNode] at hn0 hm1 ⊢
    simp only [hn0, setRed, hm1, setParent, hm2, hn2, hrec]

/-- The nodes and the sentinel of a represented map are closed under `node->left`. -/
theorem Rep.closed {m : Map K V} {t : RbTree (Entry K V)} (h : m.Rep t) {a : Ptr}
    (ha : a = m.nil ∨ a ∈ treeAddrs t) :
    ∃ n, m.heap.get a = some n ∧ (n.left = m.nil ∨ n.left ∈ treeAddrs t) := by
  rcases ha with rfl | ha
  · obtain ⟨n, hn, -, hl, -⟩ := h.nilCell
    exact ⟨n, hn, Or.inl hl⟩
  · obtain ⟨e, he, rfl⟩ := List.mem_map.mp ha
    obtain ⟨pre, post, hl⟩ := List.append_of_mem he
    obtain ⟨q, c, l, r, rfl, -, -⟩ := RbPath.exists_plug_of_toList hl
    refine ⟨_, node_eq_ok.mp (h.node_join (d := .left)), ?_⟩
    rw [cell_left_left]
    rcases treeAddr_eq_nil_or_mem m.nil l with hnil | hm
    · exact Or.inl hnil
    · exact Or.inr (mem_treeAddrs_plug.mpr (Or.inr (mem_treeAddrs_node.mpr (Or.inr (Or.inl hm)))))

/-- What a copy of `other` should be: a well-formed map that shares no address with `other`,
with the same entries and the same size, next to an unchanged `other`. -/
def IsCopy (compare : K → K → Bool) (other : MapObj) (m' : Map K V) : Prop :=
  ∃ t t', WF compare { other with heap := m'.heap } t ∧ WF compare m' t' ∧
    entries t' = entries t ∧ m'.size = other.size ∧
    ∀ a ∈ World.footprint other t, a ∉ World.footprint m'.toMapObj t'

/-- The copy constructor ends and makes a copy. -/
def CopyConstructs [Inhabited K] [Inhabited V] (compare : K → K → Bool) (other : Map K V) :
    Prop :=
  ∃ fuel m', copyConstruct fuel other = .ok m' ∧ IsCopy compare other.toMapObj m'

/-- The copy assignment ends and makes a copy. -/
def CopyAssigns (compare : K → K → Bool) (m : Map K V) (other : MapObj) : Prop :=
  ∃ fuel m', m.copyAssign fuel other = .ok m' ∧ IsCopy compare other m'

/-- The copy constructor never ends on a nonempty map. -/
theorem WF.copyConstruct_error [Inhabited K] [Inhabited V] {m : Map K V}
    {t : RbTree (Entry K V)} (h : m.WF compare t) (hne : m.root ≠ m.nil) (fuel : Nat) :
    copyConstruct fuel m = .error .fuel := by
  have hlt : ∀ a, a = m.nil ∨ a ∈ treeAddrs t → a < m.heap.next := by
    intro a ha
    rcases ha with rfl | ha
    · exact h.rep.nil_lt_next
    · exact h.rep.lt_next ha
  have hclosed : (construct m.heap : Map K V).ClosedLeft fun a => a = m.nil ∨ a ∈ treeAddrs t := by
    refine ⟨fun a ha => Nat.ne_of_lt (hlt a ha), fun a ha => ?_⟩
    show ∃ n, (m.heap.alloc _).get a = some n ∧ _
    rw [Heap.get_alloc, if_neg (Nat.ne_of_lt (hlt a ha))]
    exact h.rep.closed ha
  have hroot : m.root = m.nil ∨ m.root ∈ treeAddrs t := by
    rw [h.rep.root]
    exact treeAddr_eq_nil_or_mem m.nil t
  unfold copyConstruct
  simp only [hne, ne_eq, not_false_eq_true, if_true, copyNode_error fuel hclosed hroot, bind,
    Except.bind]

/-- The copy assignment never ends on a nonempty source. -/
theorem WF.copyAssign_error {m : Map K V} {o : MapObj} {t t' : RbTree (Entry K V)}
    (h : m.WF compare t') (ho : WF compare { o with heap := m.heap } t) (hne : o.root ≠ o.nil)
    (hapart : ∀ a ∈ World.footprint o t, a ∉ World.footprint m.toMapObj t') (fuel : Nat) :
    m.copyAssign fuel o = .error .fuel := by
  obtain ⟨m1, hm1, -, hev⟩ := clear_spec h
  -- `Clear` of the destination leaves the source alone.
  have hkeep : ∀ a, a = o.nil ∨ a ∈ treeAddrs t → a ≠ m.nil ∧
      m1.heap.get a = m.heap.get a := by
    intro a ha
    have hout := hapart a (List.mem_cons.mpr ha)
    simp only [World.footprint, List.mem_cons, not_or] at hout
    refine ⟨hout.1, hev.frame a ?_ hout.1 hout.2⟩
    rcases ha with rfl | ha
    · exact ho.rep.nil_lt_next
    · exact ho.rep.lt_next ha
  have hclosed : m1.ClosedLeft fun a => a = o.nil ∨ a ∈ treeAddrs t := by
    refine ⟨fun a ha => ?_, fun a ha => ?_⟩
    · rw [hev.nil]
      exact (hkeep a ha).1
    · rw [(hkeep a ha).2]
      exact ho.rep.closed ha
  have hroot : o.root = o.nil ∨ o.root ∈ treeAddrs t := by
    rw [show o.root = treeAddr o.nil t from ho.rep.root]
    exact treeAddr_eq_nil_or_mem o.nil t
  unfold copyAssign
  simp only [hm1, hne, ne_eq, not_false_eq_true, if_true, copyNode_error fuel hclosed hroot, bind,
    Except.bind]

end Map

/-- No reachable nonempty map is copied: the copy constructor and the copy assignment run out
of every number of rounds. -/
theorem World.Reachable.not_copy [StrictWeak compare] [Inhabited K] [Inhabited V]
    {w : World K V} (h : w.Reachable compare) {i : Nat} {m : Map K V} (hm : w.map i = some m)
    (hne : m.root ≠ m.nil) :
    (∀ fuel, Map.copyConstruct fuel m = .error .fuel) ∧ ¬ Map.CopyConstructs compare m ∧
      ∀ j m', j ≠ i → w.map j = some m' →
        (∀ fuel, m'.copyAssign fuel m.toMapObj = .error .fuel) ∧
          ¬ Map.CopyAssigns compare m' m.toMapObj := by
  obtain ⟨ts, hinv⟩ := h.inv
  have hwf := hinv.wf i m hm
  obtain ⟨hobj, hheap⟩ := World.map_eq_some.mp hm
  refine ⟨hwf.copyConstruct_error hne, ?_, ?_⟩
  · rintro ⟨fuel, m', hm', -⟩
    rw [hwf.copyConstruct_error hne fuel] at hm'
    cases hm'
  · intro j m' hj hm'
    have hwf' := hinv.wf j m' hm'
    obtain ⟨hobj', hheap'⟩ := World.map_eq_some.mp hm'
    have hsrc : Map.WF compare { m.toMapObj with heap := m'.heap } (ts i) := by
      rw [hheap', ← hheap]
      exact hwf
    have herr := hwf'.copyAssign_error hsrc hne (hinv.apart i j _ _ hj.symm hobj hobj')
    refine ⟨herr, ?_⟩
    rintro ⟨fuel, m'', hm'', -⟩
    rw [herr fuel] at hm''
    cases hm''

/-- Neither copy of the first map of `World.sample` ends. -/
theorem World.sample_not_copy :
    ¬ Map.CopyConstructs (fun a b => decide (a < b)) World.sampleMap ∧
      ∃ m', World.sample.map 1 = some m' ∧
        ¬ Map.CopyAssigns (fun a b => decide (a < b)) m' World.sampleMap.toMapObj := by
  have h := World.sample_reachable.not_copy (i := 0) (m := World.sampleMap) rfl (by decide)
  exact ⟨h.2.1, _, rfl, (h.2.2 1 _ (by decide) rfl).2⟩

/-- The copy constructor runs out of every number of rounds on a reachable map with three
entries. -/
theorem World.sample_copyConstruct_fuel :
    World.sample.Reachable (fun a b => decide (a < b)) ∧
      World.sample.map 0 = some World.sampleMap ∧ World.sampleMap.size = 3 ∧
      (∀ fuel, Map.copyConstruct fuel World.sampleMap = .error .fuel) ∧
      ¬ Map.CopyConstructs (fun a b => decide (a < b)) World.sampleMap := by
  obtain ⟨ts, hinv⟩ := World.sample_reachable.inv
  have herr := (hinv.wf 0 World.sampleMap rfl).copyConstruct_error (by decide)
  refine ⟨World.sample_reachable, rfl, rfl, herr, ?_⟩
  rintro ⟨fuel, m', hm', -⟩
  rw [herr fuel] at hm'
  cases hm'

end KernelEventsTrace.Driver.Std
