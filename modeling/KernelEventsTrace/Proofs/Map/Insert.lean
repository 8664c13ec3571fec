import KernelEventsTrace.Proofs.Map.InsertFixup
import KernelEventsTrace.Proofs.Map.Search

/-!
# `KernelEventsTrace.Proofs.Map.Insert`: `Insert`, `operator[]`, `Find` and `Count`

A new node is linked below the leaf where the search ended, as a red node
(`link_spec`), and `InsertFixup` restores the tree (`attach_spec`).

`insert_spec`, `index_spec` and `find_spec` say what the member functions return and what
the map is afterwards. Each of them succeeds on every well-formed map.
-/

set_option autoImplicit false

namespace KernelEventsTrace.Driver.Std.Map

open KernelEventsTrace.RedBlack
open KernelEventsTrace.RedBlack.RbPath (plug before after)
open KernelEventsTrace.OrdMap (StrictWeak Equiv lt_asymm not_equiv_of_lt)

variable {K V : Type} {compare : K → K → Bool}

/-! ### A new node below a leaf -/

/-- The test of `link` finds the side of the leaf where the search ended. -/
theorem Between.compare_head [StrictWeak compare]
    {f : Frame (Entry K V)} {q : RbPath (Entry K V)} {key : K}
    (h : Between compare (f :: q) key) : compare key f.elem.key = true ↔ f.side = .left := by
  cases hs : f.side with
  | left =>
    have := h.2 f.elem (by simp [after, hs])
    simp [this]
  | right =>
    have hlt := h.1 f.elem (by simp [before, hs])
    simp [lt_asymm hlt]

/-- The parent of the new node, or the map object, gets it as a child. -/
theorem linkBelow_spec [StrictWeak compare] {m : Map K V} {q : RbPath (Entry K V)} {z : Ptr}
    {n : Node K V} (hpath : PathAt m.heap.get m.nil m.nil q) (hnd : (pathAddrs q).Nodup)
    (hnilq : m.nil ∉ pathAddrs q) (hz : m.heap.get z = some n) (hq : Between compare q n.key) :
    ∃ m', linkBelow compare m z (pathAddr m.nil q) = .ok m' ∧
      m'.nil = m.nil ∧ m'.size = m.size ∧ m'.heap.next = m.heap.next ∧
      m'.root = (if q = [] then z else m.root) ∧ PathAt m'.heap.get m.nil z q ∧
      ∀ a, a ∉ pathAddrs q → m'.heap.get a = m.heap.get a := by
  cases q with
  | nil =>
    refine ⟨{ m with root := z }, ?_, rfl, rfl, rfl, rfl, trivial, fun a _ => rfl⟩
    unfold linkBelow
    rw [pathAddr_nil, if_pos rfl]
    rfl
  | cons f q =>
    obtain ⟨m', hm', hobj, hnext, hpath', hget⟩ := setChild_frame_spec hpath hnd z
    have hne : f.elem.addr ≠ m.nil := by
      intro heq
      exact hnilq (heq ▸ by simp)
    refine ⟨m', ?_, congrArg MapObj.nil hobj, congrArg MapObj.size hobj, hnext,
      congrArg MapObj.root hobj, hpath', fun a ha => hget a ?_⟩
    · unfold linkBelow
      rw [pathAddr_cons, if_neg hne]
      simp only [node_of_get hz, node_of_get hpath.1, bind, Except.bind, cell_key]
      by_cases hlt : compare n.key f.elem.key = true
      · rw [if_pos hlt, ← hq.compare_head.mp hlt]
        exact hm'
      · rw [if_neg hlt, ← Side.eq_right fun hs => hlt (hq.compare_head.mpr hs)]
        exact hm'
    · rintro rfl
      simp at ha

/-- The first half of `attach`: the node is a red leaf of the represented tree. -/
theorem link_spec [StrictWeak compare] {m : Map K V}
    {q : RbPath (Entry K V)} {z : Ptr} {n : Node K V} (h : m.Rep (plug q .nil))
    (hq : Between compare q n.key) (hz : m.heap.get z = some n) (hzq : z ∉ pathAddrs q)
    (hzn : z ≠ m.nil) :
    ∃ m', link compare m z (pathAddr m.nil q) = .ok m' ∧
      m'.Rep (plug q (.node true .nil ⟨z, n.key, n.val⟩ .nil)) ∧
      m'.nil = m.nil ∧ m'.size = m.size ∧ m'.heap.next = m.heap.next ∧
      ∀ a, a ≠ z → a ∉ pathAddrs q → m'.heap.get a = m.heap.get a := by
  obtain ⟨hpath, -⟩ := treeAt_plug.mp h.cells
  obtain ⟨hnd, -, -⟩ := nodup_treeAddrs_plug.mp h.nodup
  have hnilq : m.nil ∉ pathAddrs q := fun hm =>
    h.nil_notMem (mem_treeAddrs_plug.mpr (Or.inl hm))
  -- The new node gets its parent.
  obtain ⟨m1, hm1, hobj1, hnext1, hget1⟩ :=
    update_spec hz fun n => { n with parent := pathAddr m.nil q }
  have hnil1 : m1.nil = m.nil := congrArg MapObj.nil hobj1
  have hz1 : m1.heap.get z = some { n with parent := pathAddr m.nil q } := by
    rw [hget1, if_pos rfl]
  have hpath1 : PathAt m1.heap.get m1.nil m1.nil q := by
    rw [hnil1]
    refine hpath.congr fun a ha => ?_
    rw [hget1, if_neg]
    rintro rfl
    exact hzq ha
  obtain ⟨m2, hm2, hnil2, hsize2, hnext2, hroot2, hpath2, hget2⟩ :=
    linkBelow_spec hpath1 hnd (by rw [hnil1]; exact hnilq) hz1 hq
  rw [hnil1] at hm2 hnil2 hpath2
  have hz2 : m2.heap.get z = some { n with parent := pathAddr m.nil q } := by
    rw [hget2 _ hzq, hz1]
  -- The new node becomes a red leaf.
  obtain ⟨m3, hm3, hobj3, hnext3, hget3⟩ := update_spec hz2 (Node.setChild .left m2.nil)
  have hz3 := hget3 z
  rw [if_pos rfl] at hz3
  obtain ⟨m4, hm4, hobj4, hnext4, hget4⟩ := update_spec hz3 (Node.setChild .right m3.nil)
  have hz4 := hget4 z
  rw [if_pos rfl] at hz4
  obtain ⟨m5, hm5, hobj5, hnext5, hget5⟩ := update_spec hz4 fun n => { n with isRed := true }
  have hnil3 : m3.nil = m.nil := (congrArg MapObj.nil hobj3).trans hnil2
  have hnil5 : m5.nil = m.nil :=
    ((congrArg MapObj.nil hobj5).trans (congrArg MapObj.nil hobj4)).trans hnil3
  have hother : ∀ a, a ≠ z → m5.heap.get a = m2.heap.get a := fun a ha => by
    rw [hget5, if_neg ha, hget4, if_neg ha, hget3, if_neg ha]
  have hframe : ∀ a, a ≠ z → a ∉ pathAddrs q → m5.heap.get a = m.heap.get a :=
    fun a ha haq => by rw [hother a ha, hget2 a haq, hget1, if_neg ha]
  refine ⟨m5, ?_, ⟨?_, ?_, ?_, ?_, ?_⟩, hnil5, ?_, ?_, hframe⟩
  · unfold link
    simp only [setParent, hm1, bind, Except.bind, hm2, setChild, hm3, hm4, setRed, hm5]
  · have hnew := treeAddr_plug m.nil q (.node true .nil ⟨z, n.key, n.val⟩ .nil) .nil
    rw [congrArg MapObj.root hobj5, congrArg MapObj.root hobj4, congrArg MapObj.root hobj3,
      hroot2, congrArg MapObj.root hobj1, h.root, hnil5, hnew, treeAddr_node]
  · rw [hnil5, treeAt_plug]
    refine ⟨?_, ?_, trivial, trivial⟩
    · refine hpath2.congr fun a ha => hother a ?_
      rintro rfl
      exact hzq ha
    · rw [hget5, if_pos rfl, hnil3, hnil2]
      rfl
  · rw [nodup_treeAddrs_plug]
    refine ⟨hnd, by simp [treeAddrs], fun a ha => ?_⟩
    have : a ≠ z := by
      rintro rfl
      exact hzq ha
    simpa [treeAddrs] using this
  · rw [hnil5, mem_treeAddrs_plug]
    rintro (hm | hm)
    · exact hnilq hm
    · simp only [treeAddrs, RbTree.toList_node, RbTree.toList_nil, List.nil_append, List.map_cons,
        List.map_nil, List.mem_singleton] at hm
      exact hzn hm.symm
  · rw [hnil5, hframe _ hzn.symm hnilq]
    exact h.nilCell
  · rw [congrArg MapObj.size hobj5, congrArg MapObj.size hobj4, congrArg MapObj.size hobj3,
      hsize2, congrArg MapObj.size hobj1]
  · rw [hnext5, hnext4, hnext3, hnext2, hnext1]

/-- `attach` adds the new node to the entries, in the place of the leaf. -/
theorem attach_spec [StrictWeak compare] {m : Map K V} {q : RbPath (Entry K V)} {z : Ptr}
    {n : Node K V} (h : m.WF compare (plug q .nil)) (hq : Between compare q n.key)
    (hz : m.heap.get z = some n) (hzq : z ∉ pathAddrs q) (hzn : z ≠ m.nil) :
    ∃ m' t', attach compare m z (pathAddr m.nil q) = .ok m' ∧ WF compare m' t' ∧
      t'.toList = before q ++ ⟨z, n.key, n.val⟩ :: after q ∧ m'.nil = m.nil ∧
      m'.heap.next = m.heap.next ∧
      ∀ a, a ≠ z → a ∉ pathAddrs q → m'.heap.get a = m.heap.get a := by
  obtain ⟨m1, hm1, h1, hnil1, hsize1, hnext1, hget1⟩ := link_spec h.rep hq hz hzq hzn
  have hlen : (plug q (.node true .nil ⟨z, n.key, n.val⟩ .nil)).toList.length = m1.size + 1 := by
    have hs := h.size
    rw [RbPath.toList_plug] at hs ⊢
    simp only [RbTree.toList_nil, RbTree.toList_node, List.length_append, List.length_cons,
      List.length_nil] at hs ⊢
    omega
  obtain ⟨m2, t2, hm2, h2, hrb, hl2, hc2⟩ :=
    insertFixup_spec h1 (InsertReady.of_leaf h.redBlack) (Nat.le_of_eq hlen)
  have hl : t2.toList = before q ++ ⟨z, n.key, n.val⟩ :: after q := by
    rw [hl2, RbPath.toList_plug]
    simp
  refine ⟨{ m2 with size := m2.size + 1 }, t2, ?_, ⟨⟨h2.root, h2.cells, h2.nodup, h2.nil_notMem,
    h2.nilCell⟩, hrb, ?_, ?_⟩, hl, hc2.nil.trans hnil1, hc2.next.trans hnext1, ?_⟩
  · unfold attach
    simp only [hm1, bind, Except.bind, pure, Except.pure]
    rw [treeAddr_node] at hm2
    rw [hm2]
  · have hs := h.sorted
    unfold Sorted at hs ⊢
    rw [RbPath.toList_plug] at hs
    rw [hl]
    simp only [RbTree.toList_nil, List.append_nil, List.pairwise_append, List.pairwise_cons,
      List.mem_cons] at hs ⊢
    refine ⟨hs.1, ⟨hq.2, hs.2.1⟩, ?_⟩
    intro a ha b hb
    rcases hb with rfl | hb
    · exact hq.1 a ha
    · exact hs.2.2 a ha b hb
  · show m2.size + 1 = t2.toList.length
    rw [hl2, hlen, hc2.size]
  · intro a haz haq
    show m2.heap.get a = m.heap.get a
    rw [hc2.get, hget1 a haz haq]
    rw [mem_treeAddrs_plug]
    rintro (hm | hm)
    · exact haq hm
    · simp [treeAddrs] at hm
      exact haz hm

/-! ### Insertion -/

/-- No entry of a sorted tree is equivalent to a key that belongs at a leaf. -/
theorem Between.not_equiv {q : RbPath (Entry K V)} {key : K} (hq : Between compare q key)
    {e : Entry K V} (he : e ∈ (plug q .nil).toList) : ¬ Equiv compare key e.key := by
  rw [RbPath.toList_plug] at he
  simp only [RbTree.toList_nil, List.append_nil, List.mem_append] at he
  intro heq
  rcases he with he | he
  · exact not_equiv_of_lt (hq.1 e he) heq.symm
  · exact not_equiv_of_lt (hq.2 e he) heq

/-- A search on a well-formed map ends, within as many rounds as the fuel or the height of
the tree allow. -/
theorem WF.search [StrictWeak compare] {m : Map K V} {t : RbTree (Entry K V)}
    (h : m.WF compare t) (key : K) {n : Nat} (hn : t.height < n) :
    ∃ s, searchLoop compare n m key m.root m.nil = .ok s ∧
      Search.Ends compare m.nil t key s := by
  have hb : Between compare ([] : RbPath (Entry K V)) key :=
    ⟨fun e he => by simp [before] at he, fun e he => by simp [after] at he⟩
  rw [h.rep.root]
  exact searchLoop_spec (p := []) n h.rep h.sorted hb hn

/-- `new Node` leaves every map alone. -/
theorem WF.newNode {m : Map K V} {t : RbTree (Entry K V)} (h : m.WF compare t) (key : K)
    (val : V) : WF compare (m.newNode key val).2 t := by
  refine h.congr fun a ha => ?_
  have hlt : a < m.heap.next := by
    rcases ha with rfl | ha
    · exact h.rep.nil_lt_next
    · exact h.rep.lt_next ha
  rw [Heap.get_alloc, if_neg (Nat.ne_of_lt hlt)]

/-- What an insertion of an absent key does, with `z` as the new node. -/
structure Inserted (compare : K → K → Bool) (m : Map K V) (t : RbTree (Entry K V)) (key : K)
    (val : V) (z : Ptr) (m' : Map K V) (t' : RbTree (Entry K V)) : Prop where
  wf : WF compare m' t'
  evolves : Evolves m t m' t'
  splits : ∃ pre post, t.toList = pre ++ post ∧ t'.toList = pre ++ ⟨z, key, val⟩ :: post

/-- The new node of `newNode`, attached where the search ended. -/
theorem attach_newNode [StrictWeak compare] {m : Map K V} {q : RbPath (Entry K V)} {key : K}
    (h : m.WF compare (plug q .nil)) (hq : Between compare q key) (val : V) :
    ∃ m' t', attach compare (m.newNode key val).2 m.heap.next (pathAddr m.nil q) = .ok m' ∧
      Inserted compare m (plug q .nil) key val m.heap.next m' t' := by
  have hlt : ∀ a ∈ treeAddrs (plug q .nil), a < m.heap.next := fun a ha => h.rep.lt_next ha
  have hz := m.newNode_get key val
  have hzq : m.heap.next ∉ pathAddrs q := fun hm =>
    Nat.lt_irrefl _ (hlt _ (mem_treeAddrs_plug.mpr (Or.inl hm)))
  have hzn : m.heap.next ≠ m.nil := (Nat.ne_of_lt h.rep.nil_lt_next).symm
  obtain ⟨m', t', hm', hwf, hl, hnil, hnext, hget⟩ :=
    attach_spec (h.newNode key val) hq hz hzq hzn
  have hnext' : m'.heap.next = m.heap.next + 1 := by
    rw [hnext]
    exact Heap.next_alloc _ _
  refine ⟨m', t', hm', hwf, ⟨hnil, by omega, ?_, ?_⟩, before q, after q, ?_, hl⟩
  · intro a ha _ hat
    have haz : a ≠ m.heap.next := Nat.ne_of_lt ha
    rw [hget a haz fun hm => hat (mem_treeAddrs_plug.mpr (Or.inl hm))]
    show (m.heap.alloc _).get _ = _
    rw [Heap.get_alloc, if_neg haz]
  · intro a ha
    have hmem : a ∈ treeAddrs t' ↔ a = m.heap.next ∨ a ∈ treeAddrs (plug q .nil) := by
      unfold treeAddrs
      rw [hl, RbPath.toList_plug]
      simp only [List.map_append, List.map_cons, List.mem_append, List.mem_cons,
        RbTree.toList_nil, List.append_nil]
      tauto
    rcases hmem.mp ha with heq | ha
    · exact Or.inr (Nat.le_of_eq heq.symm)
    · exact Or.inl ha
  · rw [RbPath.toList_plug]
    simp

/-- Where a search ends, by the entries: at the one with an equivalent key, or below a leaf
if there is none. -/
theorem Search.Ends.cases {nil : Ptr} {t : RbTree (Entry K V)} {key : K} {s : Search}
    (h : Search.Ends compare nil t key s) :
    (∃ e ∈ t.toList, Equiv compare key e.key ∧ s = .found e.addr) ∨
      ((∀ e ∈ t.toList, ¬ Equiv compare key e.key) ∧
        ∃ q, t = plug q .nil ∧ Between compare q key ∧ s = .absent (pathAddr nil q)) := by
  cases s with
  | found x =>
    obtain ⟨q, c, l, e, r, rfl, rfl, heq⟩ := h
    refine Or.inl ⟨e, ?_, heq, rfl⟩
    rw [RbPath.toList_plug_node]
    simp
  | absent y =>
    obtain ⟨q, rfl, rfl, hq⟩ := h
    exact Or.inr ⟨fun e he => hq.not_equiv he, q, rfl, hq, rfl⟩

/-- `Find` returns the entry with an equivalent key, or `End()` if there is none. -/
theorem find_spec [StrictWeak compare] {m : Map K V} {t : RbTree (Entry K V)}
    (h : m.WF compare t) (key : K) :
    (∃ e ∈ t.toList, Equiv compare key e.key ∧ m.find compare key = .ok e.addr) ∨
      ((∀ e ∈ t.toList, ¬ Equiv compare key e.key) ∧ m.find compare key = .ok m.nil) := by
  obtain ⟨s, hs, hend⟩ := h.search key h.height_lt_fuel
  unfold find
  simp only [hs, bind, Except.bind]
  rcases hend.cases with ⟨e, he, heq, rfl⟩ | ⟨hnone, q, -, -, rfl⟩
  · exact Or.inl ⟨e, he, heq, rfl⟩
  · exact Or.inr ⟨hnone, rfl⟩

/-- The branch of `Insert` for a key that the search finds. -/
theorem insert_of_found {m : Map K V} {key : K} {val : V} {x : Ptr}
    (hs : searchLoop compare m.fuel (m.newNode key val).2 key m.root m.nil = .ok (.found x)) :
    m.insert compare key val = (do
      let m' ← (m.newNode key val).2.deleteNode m.heap.next
      return (x, false, m')) := by
  have hfuel : (m.newNode key val).2.fuel = m.fuel := rfl
  rw [← hfuel] at hs
  simp only [insert, newNode, bind, Except.bind] at hs ⊢
  simp only [hs]

/-- The branch of `Insert` for a key that the search misses. -/
theorem insert_of_absent {m : Map K V} {key : K} {val : V} {y : Ptr}
    (hs : searchLoop compare m.fuel (m.newNode key val).2 key m.root m.nil = .ok (.absent y)) :
    m.insert compare key val = (do
      let m' ← attach compare (m.newNode key val).2 m.heap.next y
      return (m.heap.next, true, m')) := by
  have hfuel : (m.newNode key val).2.fuel = m.fuel := rfl
  rw [← hfuel] at hs
  simp only [insert, newNode, bind, Except.bind] at hs ⊢
  simp only [hs]

/-- `Insert` leaves a present key alone and returns its entry, and adds an absent key. -/
theorem insert_spec [StrictWeak compare] {m : Map K V} {t : RbTree (Entry K V)}
    (h : m.WF compare t) (key : K) (val : V) :
    (∃ e ∈ t.toList, Equiv compare key e.key ∧
        ∃ m', m.insert compare key val = .ok (e.addr, false, m') ∧ WF compare m' t ∧
          Evolves m t m' t) ∨
      ((∀ e ∈ t.toList, ¬ Equiv compare key e.key) ∧
        ∃ m' t', m.insert compare key val = .ok (m.heap.next, true, m') ∧
          Inserted compare m t key val m.heap.next m' t') := by
  obtain ⟨s, hs, hend⟩ := (h.newNode key val).search key h.height_lt_fuel
  have hs : searchLoop compare m.fuel (m.newNode key val).2 key m.root m.nil = .ok s := hs
  rcases hend.cases with ⟨e, he, heq, rfl⟩ | ⟨hnone, q, rfl, hq, rfl⟩
  · -- The node that was allocated in front of the search is deleted.
    refine Or.inl ⟨e, he, heq, ?_⟩
    have hget : ∀ a, a < m.heap.next →
        ((m.newNode key val).2.heap.put m.heap.next none).get a = m.heap.get a := by
      intro a ha
      have hne : a ≠ m.heap.next := Nat.ne_of_lt ha
      show ((m.heap.alloc _).put _ _).get _ = _
      rw [Heap.get_put (by simp [Heap.next]) (by simp), if_neg hne, Heap.get_alloc, if_neg hne]
    refine ⟨{ m with heap := (m.newNode key val).2.heap.put m.heap.next none }, ?_, ?_, ?_⟩
    · rw [insert_of_found hs, deleteNode_eq (m.newNode_get key val)]
      rfl
    · refine h.congr fun a ha => hget a ?_
      rcases ha with rfl | ha
      · exact h.rep.nil_lt_next
      · exact h.rep.lt_next ha
    · refine ⟨rfl, ?_, fun a ha _ _ => hget a ha, fun a ha => Or.inl ha⟩
      show _ ≤ ((m.heap.alloc _).put _ _).next
      rw [Heap.next_put, Heap.next_alloc]
      omega
  · right
    obtain ⟨m', t', hm', hins⟩ := attach_newNode h hq val
    refine ⟨hnone, m', t', ?_, hins⟩
    have hnil : (m.newNode key val).2.nil = m.nil := rfl
    rw [insert_of_absent hs, hnil, hm']
    rfl

/-- `operator[]` names the entry of a present key, and adds an absent key with the default
value. -/
theorem index_spec [StrictWeak compare] [Inhabited V] {m : Map K V} {t : RbTree (Entry K V)}
    (h : m.WF compare t) (key : K) :
    (∃ e ∈ t.toList, Equiv compare key e.key ∧ m.index compare key = .ok (e.addr, m)) ∨
      ((∀ e ∈ t.toList, ¬ Equiv compare key e.key) ∧
        ∃ m' t', m.index compare key = .ok (m.heap.next, m') ∧
          Inserted compare m t key default m.heap.next m' t') := by
  obtain ⟨s, hs, hend⟩ := h.search key h.height_lt_fuel
  unfold index
  simp only [hs, bind, Except.bind]
  rcases hend.cases with ⟨e, he, heq, rfl⟩ | ⟨hnone, q, rfl, hq, rfl⟩
  · exact Or.inl ⟨e, he, heq, rfl⟩
  · right
    obtain ⟨m', t', hm', hins⟩ := attach_newNode h hq default
    refine ⟨hnone, m', t', ?_, hins⟩
    simp only [newNode] at hm' ⊢
    rw [hm']
    rfl

end KernelEventsTrace.Driver.Std.Map
