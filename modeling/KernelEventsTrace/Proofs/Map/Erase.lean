import KernelEventsTrace.Proofs.Map.Insert
import KernelEventsTrace.Proofs.Map.Unlink

/-!
# `KernelEventsTrace.Proofs.Map.Erase`: `Erase` and `Clear`

`eraseAt_spec` and `erase_spec` say that an erasure keeps the invariant and takes one entry
out of the in-order sequence. `clear_spec` says that `Clear` deletes every node. Its recursion
needs no more depth than the tree is high (`clearNode_spec`).
-/

set_option autoImplicit false

namespace KernelEventsTrace.Driver.Std.Map

open KernelEventsTrace.RedBlack
open KernelEventsTrace.RedBlack.RbPath (plug before after)
open KernelEventsTrace.OrdMap (StrictWeak Equiv)

variable {K V : Type} {compare : K → K → Bool}

/-- The focus depends on the memory of the map's own nodes and sentinel only. -/
theorem Focus.congr {m : Map K V} {k : Heap K V} {s : Nat} {p : RbPath (Entry K V)}
    {t : RbTree (Entry K V)} (h : m.Focus p t)
    (hg : ∀ a, a = m.nil ∨ a ∈ treeAddrs (plug p t) → k.get a = m.heap.get a) :
    Focus { m with heap := k, size := s } p t := by
  have hrep := h.rep.congr hg
  obtain ⟨n, hn, hred, hpar⟩ := h.parent
  refine ⟨⟨hrep.root, hrep.cells, hrep.nodup, hrep.nil_notMem, hrep.nilCell⟩, n, ?_, hred, hpar⟩
  rw [node_eq_ok] at hn ⊢
  refine (hg _ ?_).trans hn
  rcases treeAddr_eq_nil_or_mem m.nil t with hnil | hm
  · exact Or.inl hnil
  · exact Or.inr (mem_treeAddrs_plug.mpr (Or.inr hm))

/-- The fix-up runs if a black node left the tree, and makes it red-black again. -/
theorem fixupAfter_spec {m : Map K V} {p : RbPath (Entry K V)} {t : RbTree (Entry K V)}
    {red : Bool} (h : m.Focus p t) (hred : red = true → (plug p t).IsRedBlack)
    (hblack : red = false → ∃ n, DeleteReady p t n) (hsize : (plug p t).toList.length ≤ m.size) :
    ∃ m' t', fixupAfter m red (treeAddr m.nil t) = .ok m' ∧ m'.Rep t' ∧ t'.IsRedBlack ∧
      (red = false → t.isRed = true → t' = plug p (t.paint false)) ∧
      t'.toList = (plug p t).toList ∧ Changes m m' (treeAddrs (plug p t)) := by
  unfold fixupAfter
  cases red with
  | true =>
    exact ⟨m, plug p t, rfl, h.rep, hred rfl, fun hf => (nomatch hf), rfl, Changes.refl _ _⟩
  | false =>
    obtain ⟨n, hn⟩ := hblack rfl
    obtain ⟨m', t', hm', hrep, hrb, hpaint, h'⟩ := deleteFixup_spec h hn hsize
    exact ⟨m', t', hm', hrep, hrb, fun _ => hpaint, h'⟩

/-- The nodes that stay in the tree are old ones, and `z` is none of them. -/
theorem Unlinked.addrs {m m1 : Map K V} {p q : RbPath (Entry K V)} {c red : Bool}
    {l r t : RbTree (Entry K V)} {e : Entry K V} (h : Unlinked m m1 p c l e r red q t)
    (hnd : (treeAddrs (plug p (.node c l e r))).Nodup) {a : Ptr} (ha : a ∈ treeAddrs (plug q t)) :
    a ∈ treeAddrs (plug p (.node c l e r)) ∧ a ≠ e.addr := by
  unfold treeAddrs at hnd ha ⊢
  rw [RbPath.toList_plug_node] at hnd ⊢
  rw [h.entries] at ha
  rw [List.map_append, List.map_cons, List.nodup_middle, List.nodup_cons] at hnd
  simp only [List.map_append, List.map_cons, List.mem_append, List.mem_cons] at hnd ha ⊢
  refine ⟨by tauto, ?_⟩
  rintro rfl
  tauto

/-- `Erase(position)` goes on after `unlink` with `delete` and the fix-up. It returns the root
of the subtree in the hole. -/
theorem Unlinked.eraseAt {m m1 : Map K V} {p q : RbPath (Entry K V)} {c red : Bool}
    {l r t : RbTree (Entry K V)} {e : Entry K V} (h : m.WF compare (plug p (.node c l e r)))
    (hun : Unlinked m m1 p c l e r red q t) :
    ∃ m' t', m.eraseAt e.addr = .ok (treeAddr m.nil t, m') ∧ WF compare m' t' ∧
      Evolves m (plug p (.node c l e r)) m' t' ∧
      t'.toList = before p ++ (l.toList ++ r.toList) ++ after p ∧
      (red = false → t.isRed = true → t' = plug q (t.paint false)) := by
  have hmem : ∀ a, a ∈ treeAddrs (plug q t) → a ∈ treeAddrs (plug p (.node c l e r)) ∧
      a ≠ e.addr := fun a => hun.addrs h.rep.nodup
  obtain ⟨hm1, hfocus, hred, hblack, hl1, ⟨n, hn⟩, hrw⟩ := hun
  have hne : e.addr ≠ m.nil := h.rep.addr_ne_nil (d := .left)
  have hl := RbPath.toList_plug_node p c l r e
  -- The node `z` is no longer part of the tree, and is deleted.
  have hget2 : ∀ a, a ≠ e.addr → (m1.heap.put e.addr none).get a = m1.heap.get a := fun a ha => by
    rw [Heap.get_put_of_get hn, if_neg ha]
  have hfocus2 := hfocus.congr (s := m1.size - 1) (k := m1.heap.put e.addr none) fun a ha =>
    hget2 a (by
      rcases ha with rfl | ha
      · rw [hrw.nil]
        exact hne.symm
      · exact (hmem a ha).2)
  have hlen : (plug q t).toList.length + 1 = m.size := by
    rw [h.size, hl, hl1]
    simp only [List.length_append, List.length_cons]
    omega
  have hsorted : Sorted compare (plug q t).toList := by
    have hs := h.sorted
    unfold Sorted at hs ⊢
    rw [hl] at hs
    refine hs.sublist ?_
    rw [hl1]
    simp only [List.append_assoc, List.append_sublist_append_left]
    exact List.sublist_cons_self ..
  obtain ⟨m3, t3, hm3, hrep3, hrb3, hpaint3, hl3, hc3⟩ := fixupAfter_spec hfocus2 hred hblack (by
    show _ ≤ m1.size - 1
    rw [hrw.size]
    omega)
  refine ⟨m3, t3, ?_, ⟨hrep3, hrb3, ?_, ?_⟩, ⟨?_, ?_, ?_, ?_⟩, hl3.trans hl1, hpaint3⟩
  · unfold Map.eraseAt
    rw [if_neg (show e.addr ≠ m.endIt from hne), ← hrw.nil]
    rw [← hrw.nil] at hm1
    simp only [hm1, bind, Except.bind, deleteNode_eq hn, hm3, pure, Except.pure]
  · rw [hl3]
    exact hsorted
  · rw [hl3, hc3.size]
    show m1.size - 1 = _
    rw [hrw.size]
    omega
  · rw [hc3.nil]
    exact hrw.nil
  · rw [hc3.next]
    show _ ≤ (m1.heap.put _ _).next
    rw [Heap.next_put, hrw.next]
  · intro a _ han hat
    have hae : a ≠ e.addr := by
      rintro rfl
      exact hat (mem_treeAddrs_plug.mpr (Or.inr (mem_treeAddrs_node.mpr (Or.inl rfl))))
    rw [hc3.get a fun ha => hat (hmem a ha).1]
    show (m1.heap.put _ _).get a = _
    rw [hget2 a hae, hrw.get a han hat]
  · intro a ha
    unfold treeAddrs at ha
    rw [hl3] at ha
    exact Or.inl (hmem a ha).1

/-- `Erase(position)` takes its entry out and keeps the invariant. -/
theorem eraseAt_spec {m : Map K V} {t : RbTree (Entry K V)} (h : m.WF compare t)
    {pre post : List (Entry K V)} {e : Entry K V} (hl : t.toList = pre ++ e :: post) :
    ∃ x m' t', m.eraseAt e.addr = .ok (x, m') ∧ WF compare m' t' ∧ Evolves m t m' t' ∧
      t'.toList = pre ++ post := by
  obtain ⟨p, c, l, r, rfl, rfl, rfl⟩ := RbPath.exists_plug_of_toList hl
  obtain ⟨m1, red, q, t, hun⟩ := unlink_spec h.rep h.redBlack (Nat.le_of_eq h.size.symm)
  obtain ⟨m', t', hm', hwf, hev, hl', -⟩ := hun.eraseAt h
  refine ⟨_, m', t', hm', hwf, hev, ?_⟩
  rw [hl']
  simp

/-- `Erase(key)` takes the entry with an equivalent key out, if there is one. -/
theorem erase_spec [StrictWeak compare] {m : Map K V} {t : RbTree (Entry K V)}
    (h : m.WF compare t) (key : K) :
    (∃ pre e post, t.toList = pre ++ e :: post ∧ Equiv compare key e.key ∧
        ∃ m' t', m.erase compare key = .ok (1, m') ∧ WF compare m' t' ∧ Evolves m t m' t' ∧
          t'.toList = pre ++ post) ∨
      ((∀ e ∈ t.toList, ¬ Equiv compare key e.key) ∧ m.erase compare key = .ok (0, m)) := by
  unfold erase
  rcases find_spec h key with ⟨e, he, heq, hfind⟩ | ⟨hnone, hfind⟩
  · obtain ⟨pre, post, hl⟩ := List.append_of_mem he
    obtain ⟨x, m', t', hm', hwf, hev, hl'⟩ := eraseAt_spec h hl
    refine Or.inl ⟨pre, e, post, hl, heq, m', t', ?_, hwf, hev, hl'⟩
    have hne : e.addr ≠ m.endIt := by
      intro hnil
      refine h.rep.nil_notMem ?_
      rw [show m.nil = e.addr from hnil.symm]
      exact List.mem_map_of_mem he
    simp only [hfind, bind, Except.bind, ne_eq, hne, not_false_eq_true, if_true, hm', pure,
      Except.pure]
  · refine Or.inr ⟨hnone, ?_⟩
    simp [hfind, bind, Except.bind, endIt, pure, Except.pure]

/-! ### `Clear` -/

/-- `Clear(node)` deletes the nodes of the subtree. Its recursion is as deep as the subtree is
high. -/
theorem clearNode_spec (fuel : Nat) :
    ∀ {m : Map K V} {par : Ptr} {t : RbTree (Entry K V)},
      TreeAt m.heap.get m.nil par t → (treeAddrs t).Nodup → m.nil ∉ treeAddrs t →
      t.height < fuel →
      ∃ m', clearNode fuel m (treeAddr m.nil t) = .ok m' ∧ m'.toMapObj = m.toMapObj ∧
        m'.heap.next = m.heap.next ∧
        ∀ q, m'.heap.get q = if q ∈ treeAddrs t then none else m.heap.get q := by
  induction fuel with
  | zero => intro m par t _ _ _ hlt; omega
  | succ fuel ih =>
    intro m par t ht hnd hnil hlt
    unfold clearNode
    cases t with
    | nil => exact ⟨m, by simp [pure, Except.pure], rfl, rfl, fun q => by simp⟩
    | node c l e r =>
      obtain ⟨he, hl, hr⟩ := ht
      obtain ⟨hel, her, hln, hrn, hlr⟩ := nodup_treeAddrs_node.mp hnd
      rw [mem_treeAddrs_node] at hnil
      simp only [not_or] at hnil
      obtain ⟨hnile, hnill, hnilr⟩ := hnil
      simp only [RbTree.height] at hlt
      have hne : e.addr ≠ m.nil := fun heq => hnile heq.symm
      -- The left subtree goes first.
      obtain ⟨m1, hm1, hobj1, hnext1, hget1⟩ := ih hl hln hnill (by omega)
      have hnil1 : m1.nil = m.nil := congrArg MapObj.nil hobj1
      have he1 := (hget1 e.addr).trans (if_neg hel)
      rw [he] at he1
      have hr1 : TreeAt m1.heap.get m1.nil e.addr r := by
        rw [hnil1]
        refine hr.congr fun a ha => ?_
        rw [hget1, if_neg fun hm => hlr a hm ha]
      obtain ⟨m2, hm2, hobj2, hnext2, hget2⟩ :=
        ih hr1 hrn (by rw [hnil1]; exact hnilr) (by omega)
      rw [hnil1] at hm2
      have he2 := (hget2 e.addr).trans (if_neg her)
      rw [he1] at he2
      refine ⟨{ m2 with heap := m2.heap.put e.addr none }, ?_, hobj2.trans hobj1, ?_, ?_⟩
      · simp only [treeAddr_node, ne_eq, hne, not_false_eq_true, if_true, node_of_get he, bind,
          Except.bind, hm1, node_of_get he1, hm2, deleteNode_eq he2]
      · show (m2.heap.put _ _).next = _
        rw [Heap.next_put, hnext2, hnext1]
      · intro q
        show (m2.heap.put _ _).get q = _
        rw [Heap.get_put_of_get he2, hget2, hget1]
        simp only [mem_treeAddrs_node]
        by_cases hq : q = e.addr
        · simp [hq]
        · by_cases hqr : q ∈ treeAddrs r <;> by_cases hql : q ∈ treeAddrs l <;>
            simp [hq, hqr, hql]

/-- `Clear()` leaves the empty map. -/
theorem clear_spec {m : Map K V} {t : RbTree (Entry K V)} (h : m.WF compare t) :
    ∃ m', m.clear = .ok m' ∧ WF compare m' .nil ∧ Evolves m t m' .nil := by
  obtain ⟨m1, hm1, hobj1, hnext1, hget1⟩ :=
    clearNode_spec m.fuel h.rep.cells h.rep.nodup h.rep.nil_notMem h.height_lt_fuel
  have hnil1 : m1.nil = m.nil := congrArg MapObj.nil hobj1
  refine ⟨{ m1 with root := m1.nil, size := 0 }, ?_, ⟨⟨rfl, trivial, List.nodup_nil, by simp, ?_⟩,
    ⟨rfl, 0, rfl⟩, List.Pairwise.nil, rfl⟩, ⟨hnil1, Nat.le_of_eq hnext1.symm, ?_, ?_⟩⟩
  · unfold clear
    rw [h.rep.root]
    simp only [hm1, bind, Except.bind, pure, Except.pure]
  · show ∃ n, m1.heap.get m1.nil = some n ∧ n.isRed = false ∧ n.left = m1.nil ∧ n.right = m1.nil
    rw [hnil1, hget1, if_neg h.rep.nil_notMem]
    exact h.rep.nilCell
  · intro q _ _ hq
    exact (hget1 q).trans (if_neg hq)
  · intro a ha
    simp at ha

/-- A default-constructed map is empty. -/
theorem construct_spec [Inhabited K] [Inhabited V] (compare : K → K → Bool) (h : Heap K V) :
    WF compare (construct h) .nil := by
  refine ⟨⟨rfl, trivial, List.nodup_nil, by simp, ?_⟩, ⟨rfl, 0, rfl⟩, List.Pairwise.nil, rfl⟩
  refine ⟨{ key := default, val := default, isRed := false,
            parent := h.next, left := h.next, right := h.next }, ?_, rfl, rfl, rfl⟩
  show (h.alloc _).get h.next = _
  rw [Heap.get_alloc, if_pos rfl]

end KernelEventsTrace.Driver.Std.Map
