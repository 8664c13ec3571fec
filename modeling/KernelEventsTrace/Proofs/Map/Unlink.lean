import KernelEventsTrace.Proofs.Map.DeleteFixup
import KernelEventsTrace.Proofs.Map.Search

/-!
# `KernelEventsTrace.Proofs.Map.Unlink`: `Erase(position)` up to the fix-up

`Transplant` puts a subtree in the place of a node, and writes the parent of the sentinel if
the subtree is empty (`transplant_spec`). A node without a left or a right child is spliced
out with it (`splice_spec`). A node with two children gives its place, colour and subtrees to
its successor, which is spliced out first: between the two parts the memory is no tree, and
`Detached` says what it holds.

`unlink_left`, `unlink_right` and `unlink_both` are the three branches of the source.
`Unlinked` is what they have in common (`unlink_spec`).
-/

set_option autoImplicit false

namespace KernelEventsTrace.Driver.Std.Map

open KernelEventsTrace.RedBlack
open KernelEventsTrace.RedBlack.RbPath (plug before after)

variable {K V : Type}

/-- The sentinel is black and its own child. -/
def NilAt (get : Ptr → Option (Node K V)) (nil : Ptr) : Prop :=
  ∃ n, get nil = some n ∧ n.isRed = false ∧ n.left = nil ∧ n.right = nil

/-- A write to the parent of a subtree, which is the sentinel if the subtree is empty. -/
theorem setParent_tree_spec {m : Map K V} {t : RbTree (Entry K V)} {par x : Ptr}
    (ht : TreeAt m.heap.get m.nil par t) (hnd : (treeAddrs t).Nodup)
    (hnil : m.nil ∉ treeAddrs t) (hn : NilAt m.heap.get m.nil) :
    ∃ m', m.setParent (treeAddr m.nil t) x = .ok m' ∧ m'.toMapObj = m.toMapObj ∧
      m'.heap.next = m.heap.next ∧ TreeAt m'.heap.get m.nil x t ∧
      NilAt m'.heap.get m.nil ∧
      (∃ n, m'.heap.get (treeAddr m.nil t) = some n ∧ n.parent = x) ∧
      ∀ q, q ≠ treeAddr m.nil t → m'.heap.get q = m.heap.get q := by
  by_cases hleaf : t = .nil
  · subst hleaf
    obtain ⟨n, hn, hb, hl, hr⟩ := hn
    obtain ⟨m', hm', hobj, hnext, hget⟩ := update_spec hn fun n => { n with parent := x }
    have hnew : m'.heap.get m.nil = some { n with parent := x } := by rw [hget, if_pos rfl]
    refine ⟨m', hm', hobj, hnext, trivial, ⟨_, hnew, hb, hl, hr⟩, ⟨_, hnew, rfl⟩, ?_⟩
    intro q hq
    rw [treeAddr_nil] at hq
    rw [hget, if_neg hq]
  · have hmem : treeAddr m.nil t ∈ treeAddrs t := (treeAddr_mem m.nil t).resolve_right hleaf
    have hne : m.nil ≠ treeAddr m.nil t := fun heq => hnil (heq ▸ hmem)
    obtain ⟨n, hroot, -, -⟩ := ht.get_root hleaf
    obtain ⟨m', hm', hobj, hnext, hget⟩ := update_spec hroot fun n => { n with parent := x }
    refine ⟨m', hm', hobj, hnext, ?_, ?_, ⟨{ n with parent := x }, ?_, rfl⟩,
      fun q hq => by rw [hget, if_neg hq]⟩
    · refine ht.reparent hnd fun q _ => ?_
      rw [hget]
      split
      · rename_i hq
        rw [hq, hroot]
        rfl
      · rfl
    · unfold NilAt
      rw [hget, if_neg hne]
      exact hn
    · rw [hget, if_pos rfl]

/-- `Transplant` puts the subtree `v` in the place of the node `u` below the path `p`. -/
theorem transplant_spec {m : Map K V} {p : RbPath (Entry K V)} {u par : Ptr} {n : Node K V}
    {v : RbTree (Entry K V)} (hu : m.heap.get u = some n) (hpar : n.parent = pathAddr m.nil p)
    (hp : PathAt m.heap.get m.nil u p) (hpn : (pathAddrs p).Nodup)
    (hv : TreeAt m.heap.get m.nil par v) (hvn : (treeAddrs v).Nodup)
    (hn : NilAt m.heap.get m.nil) (hnilp : m.nil ∉ pathAddrs p) (hnilv : m.nil ∉ treeAddrs v)
    (hup : u ∉ pathAddrs p) (hun : u ≠ m.nil)
    (hdis : ∀ a ∈ pathAddrs p, a ∉ treeAddrs v) :
    ∃ m', m.transplant u (treeAddr m.nil v) = .ok m' ∧ m'.nil = m.nil ∧ m'.size = m.size ∧
      m'.heap.next = m.heap.next ∧ m'.root = (if p = [] then treeAddr m.nil v else m.root) ∧
      PathAt m'.heap.get m.nil (treeAddr m.nil v) p ∧
      TreeAt m'.heap.get m.nil (pathAddr m.nil p) v ∧ NilAt m'.heap.get m.nil ∧
      (∃ k, m'.heap.get (treeAddr m.nil v) = some k ∧ k.parent = pathAddr m.nil p) ∧
      ∀ q, q ∉ pathAddrs p → q ≠ treeAddr m.nil v → m'.heap.get q = m.heap.get q := by
  obtain ⟨m1, hm1, hnil1, hsize1, hnext1, hroot1, hp1, hget1⟩ :=
    relink_spec (v := treeAddr m.nil v) hu hpar hp hnilp hpn hup hun
  have hu1 : m1.heap.get u = some n := by rw [hget1 u hup, hu]
  have hv1 : TreeAt m1.heap.get m1.nil par v := by
    rw [hnil1]
    exact hv.congr fun a ha => hget1 a fun hap => hdis a hap ha
  have hn1 : NilAt m1.heap.get m1.nil := by
    rw [hnil1]
    unfold NilAt
    rw [hget1 _ hnilp]
    exact hn
  obtain ⟨m2, hm2, hobj2, hnext2, hv2, hn2, hpar2, hget2⟩ :=
    setParent_tree_spec (x := n.parent) hv1 hvn (by rw [hnil1]; exact hnilv) hn1
  rw [hnil1] at hm2 hv2 hn2 hpar2 hget2
  rw [hpar] at hv2 hpar2
  refine ⟨m2, ?_, (congrArg MapObj.nil hobj2).trans hnil1,
    (congrArg MapObj.size hobj2).trans hsize1, hnext2.trans hnext1,
    (congrArg MapObj.root hobj2).trans hroot1, ?_, hv2, hn2, hpar2, ?_⟩
  · unfold transplant
    simp only [hm1, bind, Except.bind, node_of_get hu1, hm2]
  · refine hp1.congr fun a ha => hget2 a (ne_treeAddr ?_ (hdis a ha))
    rintro rfl
    exact hnilp ha
  · intro q hqp hqv
    rw [hget2 q hqv, hget1 q hqp]

/-- The frame of a change inside the tree: besides its nodes, only the sentinel may change. -/
structure Rewrites (m m' : Map K V) (S : List Ptr) : Prop where
  nil : m'.nil = m.nil
  size : m'.size = m.size
  next : m'.heap.next = m.heap.next
  get : ∀ q, q ≠ m.nil → q ∉ S → m'.heap.get q = m.heap.get q

/-- `Transplant` splices out a node with at most one child. -/
theorem splice_spec {m : Map K V} {p : RbPath (Entry K V)} {d : Side} {c : Bool}
    {u : Entry K V} {v : RbTree (Entry K V)} (h : m.Rep (plug p (RbTree.join d c .nil u v))) :
    ∃ m', m.transplant u.addr (treeAddr m.nil v) = .ok m' ∧ m'.Focus p v ∧
      m'.heap.get u.addr = m.heap.get u.addr ∧
      Rewrites m m' (treeAddrs (plug p (RbTree.join d c .nil u v))) := by
  obtain ⟨hpath, htree⟩ := treeAt_plug.mp h.cells
  obtain ⟨hu, -, hv⟩ := treeAt_join.mp htree
  obtain ⟨hpn, htn, hdis⟩ := nodup_treeAddrs_plug.mp h.nodup
  obtain ⟨-, huv, -, hvn, -⟩ := nodup_treeAddrs_join.mp htn
  have hnil := h.nil_notMem
  simp only [mem_treeAddrs_plug, mem_treeAddrs_join, treeAddrs_nil, List.not_mem_nil, false_or,
    not_or] at hnil hdis
  obtain ⟨hnilp, hnilu, hnilv⟩ := hnil
  rw [treeAddr_join] at hpath
  have hup : u.addr ∉ pathAddrs p := fun hm => (hdis _ hm).1 rfl
  have hun : u.addr ≠ m.nil := fun heq => hnilu heq.symm
  obtain ⟨m', hm', hnil', hsize', hnext', hroot', hp', hv', hn', ⟨k, hk, hkpar⟩, hget'⟩ :=
    transplant_spec hu (cell_parent ..) hpath hpn hv hvn h.nilCell hnilp hnilv hup hun
      fun a ha => (hdis a ha).2
  have huk : u.addr ≠ treeAddr m.nil v := ne_treeAddr hun huv
  have hrep : m'.Rep (plug p v) := by
    refine ⟨?_, ?_, ?_, ?_, ?_⟩
    · have := treeAddr_plug m.nil p v (RbTree.join d c .nil u v)
      rw [hroot', hnil', this, h.root]
    · rw [hnil']
      exact treeAt_plug.mpr ⟨hp', hv'⟩
    · exact nodup_treeAddrs_plug.mpr ⟨hpn, hvn, fun a ha => (hdis a ha).2⟩
    · rw [hnil', mem_treeAddrs_plug]
      rintro (hm | hm)
      · exact hnilp hm
      · exact hnilv hm
    · rw [hnil']
      exact hn'
  refine ⟨m', hm', ⟨hrep, ?_⟩, hget' _ hup huk, hnil', hsize', hnext', ?_⟩
  · by_cases hleaf : v = .nil
    · subst hleaf
      obtain ⟨k', hk', hb, -, -⟩ := hn'
      rw [treeAddr_nil] at hk
      obtain rfl : k = k' := Option.some.inj (hk.symm.trans hk')
      refine ⟨k, ?_, hb, ?_⟩
      · rw [treeAddr_nil, node_eq_ok, hnil', hk]
      · rw [hkpar, hnil']
    · exact (Focus.of_ne_nil hrep hleaf).parent
  · intro q hqn hq
    simp only [mem_treeAddrs_plug, mem_treeAddrs_join, treeAddrs_nil, List.not_mem_nil, false_or,
      not_or] at hq
    exact hget' q hq.1 (ne_treeAddr hqn hq.2.2)

/-- The memory between the two parts of `Erase` at a node with two children: `z` still holds
its place and its left subtree `l`, and `y` has the rest `r'` of the right subtree. -/
structure Detached (m : Map K V) (p : RbPath (Entry K V)) (c : Bool) (l : RbTree (Entry K V))
    (z : Ptr) (cy : Bool) (y : Entry K V) (r' : RbTree (Entry K V)) : Prop where
  path : PathAt m.heap.get m.nil z p
  zCell : ∃ n, m.heap.get z = some n ∧ n.parent = pathAddr m.nil p ∧
    n.left = treeAddr m.nil l ∧ n.isRed = c
  left : TreeAt m.heap.get m.nil z l
  right : ∃ par, TreeAt m.heap.get m.nil par (.node cy .nil y r')
  nilCell : NilAt m.heap.get m.nil

/-- The sentinel, the addresses of `z` and its successor `y`, of the path `p`, the left
subtree `l` and the rest `r'` of the right subtree are apart. -/
structure Apart (nil : Ptr) (p : RbPath (Entry K V)) (l r' : RbTree (Entry K V)) (z y : Ptr) :
    Prop where
  nilPath : nil ∉ pathAddrs p
  nilLeft : nil ∉ treeAddrs l
  nilRight : nil ∉ treeAddrs r'
  zNil : z ≠ nil
  yNil : y ≠ nil
  ne : z ≠ y
  zPath : z ∉ pathAddrs p
  zLeft : z ∉ treeAddrs l
  zRight : z ∉ treeAddrs r'
  yPath : y ∉ pathAddrs p
  yLeft : y ∉ treeAddrs l
  yRight : y ∉ treeAddrs r'
  pathLeft : ∀ a ∈ pathAddrs p, a ∉ treeAddrs l
  pathRight : ∀ a ∈ pathAddrs p, a ∉ treeAddrs r'
  leftRight : ∀ a ∈ treeAddrs l, a ∉ treeAddrs r'
  path : (pathAddrs p).Nodup
  left : (treeAddrs l).Nodup
  right : (treeAddrs r').Nodup

/-- The nodes of a tree around `z` and its successor `y`. -/
theorem mem_treeAddrs_next {p q : RbPath (Entry K V)} {c cy : Bool} {l yr : RbTree (Entry K V)}
    {z y : Entry K V} {a : Ptr} :
    a ∈ treeAddrs (plug p (.node c l z (plug q (.node cy .nil y yr)))) ↔
      a ∈ pathAddrs p ∨ a = z.addr ∨ a ∈ treeAddrs l ∨ a = y.addr ∨
        a ∈ treeAddrs (plug q yr) := by
  simp only [mem_treeAddrs_plug, mem_treeAddrs_node, treeAddrs_nil, List.not_mem_nil, false_or]
  tauto

/-- The node that is erased and its successor are apart from the rest of the tree. -/
theorem Rep.apart {m : Map K V} {p q : RbPath (Entry K V)} {c cy : Bool}
    {l yr : RbTree (Entry K V)} {z y : Entry K V}
    (h : m.Rep (plug p (.node c l z (plug q (.node cy .nil y yr))))) :
    Apart m.nil p l (plug q yr) z.addr y.addr := by
  obtain ⟨hpn, htn, hdis⟩ := nodup_treeAddrs_plug.mp h.nodup
  obtain ⟨hzl, hzr, hln, hrn, hlr⟩ := nodup_treeAddrs_node.mp htn
  obtain ⟨hcn, hyn, hcy⟩ := nodup_treeAddrs_plug.mp hrn
  obtain ⟨-, hyyr, -, hyrn, -⟩ := nodup_treeAddrs_node.mp hyn
  simp only [mem_treeAddrs_plug, mem_treeAddrs_node, treeAddrs_nil, List.not_mem_nil, false_or,
    not_or] at hzr hlr hcy hdis
  have hright : ∀ a, a ∈ treeAddrs (plug q yr) ↔ a ∈ pathAddrs q ∨ a ∈ treeAddrs yr :=
    fun a => mem_treeAddrs_plug
  have hnil := h.nil_notMem
  rw [mem_treeAddrs_next] at hnil
  simp only [not_or] at hnil
  obtain ⟨hnilp, hnilz, hnill, hnily, hnilr⟩ := hnil
  refine ⟨hnilp, hnill, hnilr, fun heq => hnilz heq.symm, fun heq => hnily heq.symm, hzr.2.1,
    fun hm => (hdis _ hm).1 rfl, hzl, ?_, fun hm => (hdis _ hm).2.2.2.1 rfl,
    fun hm => (hlr _ hm).2.1 rfl, ?_, fun a ha => (hdis a ha).2.1, ?_, ?_, hpn, hln, ?_⟩
  · rw [hright, not_or]
    exact ⟨hzr.1, hzr.2.2⟩
  · rw [hright, not_or]
    exact ⟨fun hm => (hcy _ hm).1 rfl, hyyr⟩
  · intro a ha
    rw [hright, not_or]
    exact ⟨(hdis a ha).2.2.1, (hdis a ha).2.2.2.2⟩
  · intro a ha
    rw [hright, not_or]
    exact ⟨(hlr a ha).1, (hlr a ha).2.2⟩
  · exact nodup_treeAddrs_plug.mpr ⟨hcn, hyrn, fun a ha => (hcy a ha).2⟩

/-- The first part, when the successor `y` is the right child of `z`. Only the parent of its
right child is written. -/
theorem detachNext_child_spec {m : Map K V} {p : RbPath (Entry K V)} {c cy : Bool}
    {l yr : RbTree (Entry K V)} {z y : Entry K V}
    (h : m.Rep (plug p (.node c l z (.node cy .nil y yr)))) :
    ∃ m', m.detachNext z.addr y.addr = .ok m' ∧ m'.root = m.root ∧
      Detached m' p c l z.addr cy y yr ∧
      (yr = .nil → ∃ n, m'.heap.get m.nil = some n ∧ n.parent = y.addr) ∧
      Rewrites m m' (treeAddrs (plug p (.node c l z (.node cy .nil y yr)))) := by
  obtain ⟨hpath, hz, hl, hy, -, hyr⟩ := treeAt_plug.mp h.cells
  have hap : Apart m.nil p l yr z.addr y.addr := h.apart (q := [])
  obtain ⟨m', hm', hobj, hnext, hyr', hn', ⟨n, hn, hpar⟩, hget⟩ :=
    setParent_tree_spec (x := y.addr) hyr hap.right hap.nilRight h.nilCell
  have hnil' : m'.nil = m.nil := congrArg MapObj.nil hobj
  -- Everything but the right child of `y` stays.
  have hother : ∀ a, a ≠ m.nil → a ∉ treeAddrs yr → m'.heap.get a = m.heap.get a :=
    fun a hnil ha => hget a (ne_treeAddr hnil ha)
  refine ⟨m', ?_, congrArg MapObj.root hobj, ⟨?_, ?_, ?_, ⟨z.addr, ?_⟩, ?_⟩, ?_,
    hnil', congrArg MapObj.size hobj, hnext, ?_⟩
  · unfold detachNext
    simp only [node_of_get hy, bind, Except.bind, if_true, hm']
  · rw [hnil']
    refine hpath.congr fun a ha => hother a ?_ (hap.pathRight a ha)
    rintro rfl
    exact hap.nilPath ha
  · refine ⟨_, (hother _ hap.zNil hap.zRight).trans hz, ?_, ?_, rfl⟩
    · rw [hnil']
    · rw [hnil']
  · rw [hnil']
    refine hl.congr fun a ha => hother a ?_ (hap.leftRight a ha)
    rintro rfl
    exact hap.nilLeft ha
  · rw [hnil']
    exact ⟨(hother _ hap.yNil hap.yRight).trans hy, trivial, hyr'⟩
  · rw [hnil']
    exact hn'
  · rintro rfl
    exact ⟨n, hn, hpar⟩
  · intro q hqn hq
    refine hother q hqn fun hm => hq ((mem_treeAddrs_next (q := [])).mpr ?_)
    exact Or.inr (Or.inr (Or.inr (Or.inr hm)))

/-- The first part, when the successor `y` lies deeper. It is spliced out and gets the right
subtree of `z`. -/
theorem detachNext_deep_spec {m : Map K V} {f : Frame (Entry K V)} {p ctx : RbPath (Entry K V)}
    {c cy : Bool} {l yr : RbTree (Entry K V)} {z y : Entry K V}
    (h : m.Rep (plug p (.node c l z (plug (f :: ctx) (.node cy .nil y yr))))) :
    ∃ m', m.detachNext z.addr y.addr = .ok m' ∧ m'.root = m.root ∧
      Detached m' p c l z.addr cy y (plug (f :: ctx) yr) ∧
      (yr = .nil → ∃ n, m'.heap.get m.nil = some n ∧ n.parent = f.elem.addr) ∧
      Rewrites m m' (treeAddrs (plug p (.node c l z (plug (f :: ctx) (.node cy .nil y yr))))) := by
  have hap := h.apart
  -- The path of `y`, with `z` as one of its frames.
  have hsplit : ∀ t, plug (f :: ctx ++ ⟨.right, c, z, l⟩ :: p) t =
      plug p (.node c l z (plug (f :: ctx) t)) := fun t => by
    rw [RbPath.plug_append]
    rfl
  have hy := h
  rw [← hsplit] at hy
  have hny := hy.node_join (d := .left)
  obtain ⟨m1, hm1, h1, hgety, hrw1⟩ := splice_spec (d := .left) hy
  have hrep1 := h1.rep
  rw [hsplit] at hrep1
  have hnil1 := hrw1.nil
  obtain ⟨hpath1, hz1, hl1, hr1⟩ := treeAt_plug.mp hrep1.cells
  have hy1 := hgety.trans (node_eq_ok.mp hny)
  have hroot : plug (f :: ctx) yr ≠ .nil :=
    RbPath.plug_ne_nil (p := ctx) (RbTree.join_ne_nil _ _ _ _ _)
  -- `y` gets the right subtree of `z`.
  obtain ⟨m2, hm2, hobj2, hnext2, hget2⟩ :=
    update_spec hy1 (Node.setChild .right (treeAddr m1.nil (plug (f :: ctx) yr)))
  have hnil2 : m2.nil = m1.nil := congrArg MapObj.nil hobj2
  have hr2 : TreeAt m2.heap.get m2.nil z.addr (plug (f :: ctx) yr) := by
    rw [hnil2]
    refine hr1.congr fun a ha => ?_
    rw [hget2, if_neg]
    rintro rfl
    exact hap.yRight ha
  have hn2 : NilAt m2.heap.get m2.nil := by
    unfold NilAt
    rw [hnil2, hnil1, hget2, if_neg hap.yNil.symm, ← hnil1]
    exact hrep1.nilCell
  obtain ⟨m3, hm3, hobj3, hnext3, hr3, hn3, -, hget3⟩ := setParent_tree_spec (x := y.addr) hr2
    hap.right (by rw [hnil2, hnil1]; exact hap.nilRight) hn2
  have hnil3 : m3.nil = m2.nil := congrArg MapObj.nil hobj3
  have hmem : treeAddr m.nil (plug (f :: ctx) yr) ∈ treeAddrs (plug (f :: ctx) yr) :=
    (treeAddr_mem _ _).resolve_right hroot
  rw [hnil1] at hm2 hl1 hz1 hpath1 hnil2 hget2
  rw [hnil2] at hnil3 hm3 hr3 hn3 hget3
  -- The other cells stay.
  have hother : ∀ a, a ≠ y.addr → a ∉ treeAddrs (plug (f :: ctx) yr) →
      m3.heap.get a = m1.heap.get a := by
    intro a hay har
    rw [hget3, hget2, if_neg hay]
    rintro rfl
    exact har hmem
  have hy2 := hget2 y.addr
  rw [if_pos rfl] at hy2
  have hy3 : m3.heap.get y.addr = some
      { key := y.key, val := y.val, isRed := cy, parent := f.elem.addr, left := m.nil,
        right := treeAddr m.nil (plug (f :: ctx) yr) } := by
    rw [hget3, hy2]
    · rfl
    · intro heq
      exact hap.yRight (heq ▸ hmem)
  have hfz : f.elem.addr ≠ z.addr := by
    intro heq
    refine hap.zRight (mem_treeAddrs_plug.mpr (Or.inl ?_))
    rw [← heq]
    simp
  refine ⟨m3, ?_, ?_, ⟨?_, ⟨_, (hother _ hap.ne hap.zRight).trans hz1, ?_, ?_, rfl⟩, ?_,
    ⟨f.elem.addr, ?_⟩, ?_⟩, ?_, ⟨hnil3, ?_, ?_, ?_⟩⟩
  · unfold detachNext
    simp only [hny, bind, Except.bind, cell_parent, List.cons_append, pathAddr_cons, hfz, if_false]
    rw [show (cell .left cy y f.elem.addr (treeAddr m.nil .nil) (treeAddr m.nil yr)).right
      = treeAddr m.nil yr from rfl, hm1]
    simp only [node_of_get hz1]
    unfold setChild
    rw [hm2]
    simp only [node_of_get hy2, Node.setChild_right]
    exact hm3
  · rw [congrArg MapObj.root hobj3, congrArg MapObj.root hobj2, hrep1.root, h.root, hnil1]
    exact treeAddr_plug_congr m.nil p rfl
  · rw [hnil3]
    refine hpath1.congr fun a ha => hother a ?_ (hap.pathRight a ha)
    rintro rfl
    exact hap.yPath ha
  · rw [hnil3]
  · rw [hnil3]
  · rw [hnil3]
    refine hl1.congr fun a ha => hother a ?_ (hap.leftRight a ha)
    rintro rfl
    exact hap.yLeft ha
  · rw [hnil3]
    exact ⟨hy3, trivial, hr3⟩
  · rw [hnil3]
    exact hn3
  · rintro rfl
    obtain ⟨n, hn, -, hpar⟩ := h1.parent
    rw [treeAddr_nil, node_eq_ok, hnil1] at hn
    refine ⟨n, ?_, hpar⟩
    rw [hother _ hap.yNil.symm hap.nilRight, hn]
  · rw [congrArg MapObj.size hobj3, congrArg MapObj.size hobj2, hrw1.size]
  · rw [hnext3, hnext2, hrw1.next]
  · intro q hqn hq
    rw [mem_treeAddrs_next] at hq
    simp only [not_or] at hq
    rw [hother q hq.2.2.2.1 hq.2.2.2.2]
    refine hrw1.get q hqn fun hm => ?_
    rw [show RbTree.join .left cy .nil y yr = .node cy .nil y yr from rfl, hsplit,
      mem_treeAddrs_next] at hm
    tauto

/-- The first part: the successor `y`, at the end of the leftmost path `ctx` of the right
subtree, leaves its place to its right child. If that child is the sentinel, its parent is
the node above it. -/
theorem detachNext_spec {m : Map K V} {p ctx : RbPath (Entry K V)} {c cy : Bool}
    {l yr : RbTree (Entry K V)} {z y : Entry K V}
    (h : m.Rep (plug p (.node c l z (plug ctx (.node cy .nil y yr))))) :
    ∃ m', m.detachNext z.addr y.addr = .ok m' ∧ m'.root = m.root ∧
      Detached m' p c l z.addr cy y (plug ctx yr) ∧
      (yr = .nil → ∃ n, m'.heap.get m.nil = some n ∧
        n.parent = pathAddr m.nil (ctx ++ ⟨.right, c, y, l⟩ :: p)) ∧
      Rewrites m m' (treeAddrs (plug p (.node c l z (plug ctx (.node cy .nil y yr))))) := by
  cases ctx with
  | nil => exact detachNext_child_spec h
  | cons f ctx => exact detachNext_deep_spec h

section
variable {nil : Ptr} {p : RbPath (Entry K V)} {l r' : RbTree (Entry K V)} {z : Ptr}
  {y : Entry K V}

/-- What `y` brings along from the right subtree. -/
theorem Apart.next_tree (h : Apart nil p l r' z y.addr) (cy : Bool) :
    (treeAddrs (.node cy .nil y r')).Nodup ∧ nil ∉ treeAddrs (.node cy .nil y r') ∧
      ∀ a ∈ pathAddrs p, a ∉ treeAddrs (.node cy .nil y r') := by
  have hmem : ∀ a, a ∈ treeAddrs (.node cy .nil y r') ↔ a = y.addr ∨ a ∈ treeAddrs r' := by
    intro a
    simp [mem_treeAddrs_node]
  refine ⟨nodup_treeAddrs_node.mpr ⟨by simp, h.yRight, by simp, h.right, by simp⟩, ?_, ?_⟩
  · rw [hmem]
    rintro (hm | hm)
    · exact h.yNil hm.symm
    · exact h.nilRight hm
  · intro a ha hm
    rcases (hmem a).mp hm with rfl | hm
    · exact h.yPath ha
    · exact h.pathRight a ha hm

/-- The tree with `y` in the place of `z` has every address once. -/
theorem Apart.nodup (h : Apart nil p l r' z y.addr) (c : Bool) :
    (treeAddrs (plug p (.node c l y r'))).Nodup := by
  refine nodup_treeAddrs_plug.mpr ⟨h.path, nodup_treeAddrs_node.mpr
    ⟨h.yLeft, h.yRight, h.left, h.right, h.leftRight⟩, fun a ha hm => ?_⟩
  rcases mem_treeAddrs_node.mp hm with rfl | hm | hm
  · exact h.yPath ha
  · exact h.pathLeft a ha hm
  · exact h.pathRight a ha hm

/-- The sentinel is not in it. -/
theorem Apart.nil_notMem (h : Apart nil p l r' z y.addr) (c : Bool) :
    nil ∉ treeAddrs (plug p (.node c l y r')) := by
  intro hm
  rcases mem_treeAddrs_plug.mp hm with hm | hm
  · exact h.nilPath hm
  · rcases mem_treeAddrs_node.mp hm with hm | hm | hm
    · exact h.yNil hm.symm
    · exact h.nilLeft hm
    · exact h.nilRight hm

end

/-- The second part: `y` takes the place of `z`. -/
theorem replaceBy_spec {m : Map K V} {p : RbPath (Entry K V)} {c cy : Bool}
    {l r' : RbTree (Entry K V)} {z y : Entry K V} (h : Detached m p c l z.addr cy y r')
    (hap : Apart m.nil p l r' z.addr y.addr) (hl : l ≠ .nil)
    (hroot : p ≠ [] → m.root = treeAddr m.nil (plug p (.node c l z r'))) :
    ∃ m', m.replaceBy z.addr y.addr = .ok m' ∧ m'.Rep (plug p (.node c l y r')) ∧
      m'.heap.get m.nil = m.heap.get m.nil ∧ m'.heap.get z.addr = m.heap.get z.addr ∧
      m'.nil = m.nil ∧ m'.size = m.size ∧ m'.heap.next = m.heap.next ∧
      ∀ q, q ∉ pathAddrs p → q ∉ treeAddrs l → q ≠ y.addr → m'.heap.get q = m.heap.get q := by
  obtain ⟨nz, hz, hzpar, hzleft, hzred⟩ := h.zCell
  obtain ⟨par, hyt⟩ := h.right
  obtain ⟨hyn, hnily, hdis⟩ := hap.next_tree cy
  -- `y` takes the place of `z` below `p`.
  obtain ⟨m1, hm1, hnil1, hsize1, hnext1, hroot1, hp1, hy1, hn1, -, hget1⟩ :=
    transplant_spec hz hzpar h.path hap.path hyt hyn h.nilCell hap.nilPath hnily hap.zPath hap.zNil
      hdis
  rw [treeAddr_node] at hm1 hroot1 hp1 hget1
  have hz1 : m1.heap.get z.addr = some nz := by rw [hget1 _ hap.zPath hap.ne, hz]
  have hl1 : TreeAt m1.heap.get m1.nil z.addr l := by
    rw [hnil1]
    refine h.left.congr fun a ha => hget1 a (fun hm => hap.pathLeft a hm ha) ?_
    rintro rfl
    exact hap.yLeft ha
  -- `y` gets the left subtree of `z`.
  obtain ⟨m2, hm2, hobj2, hnext2, hget2⟩ := update_spec hy1.1 (Node.setChild .left nz.left)
  have hnil2 : m2.nil = m.nil := (congrArg MapObj.nil hobj2).trans hnil1
  have hy2 := hget2 y.addr
  rw [if_pos rfl] at hy2
  have hl2 : TreeAt m2.heap.get m2.nil z.addr l := by
    rw [hnil2, ← hnil1]
    refine hl1.congr fun a ha => ?_
    rw [hget2, if_neg]
    rintro rfl
    exact hap.yLeft ha
  have hn2 : NilAt m2.heap.get m2.nil := by
    unfold NilAt
    rw [hnil2, hget2, if_neg hap.yNil.symm]
    exact hn1
  obtain ⟨m3, hm3, hobj3, hnext3, hl3, hn3, -, hget3⟩ := setParent_tree_spec (x := y.addr) hl2
    hap.left (by rw [hnil2]; exact hap.nilLeft) hn2
  rw [hnil2] at hm3 hl3 hn3 hget3
  have hlmem : treeAddr m.nil l ∈ treeAddrs l := (treeAddr_mem _ _).resolve_right hl
  have hlne : ∀ a, a ∉ treeAddrs l → a ≠ treeAddr m.nil l := fun a ha heq => ha (heq ▸ hlmem)
  have hy3 := (hget3 y.addr (hlne _ hap.yLeft)).trans hy2
  -- `y` gets the colour of `z`.
  obtain ⟨m4, hm4, hobj4, hnext4, hget4⟩ := update_spec hy3 fun n => { n with isRed := nz.isRed }
  have hnil4 : m4.nil = m.nil :=
    ((congrArg MapObj.nil hobj4).trans (congrArg MapObj.nil hobj3)).trans hnil2
  have hother : ∀ a, a ∉ treeAddrs l → a ≠ y.addr → m4.heap.get a = m1.heap.get a := by
    intro a hal hay
    rw [hget4, if_neg hay, hget3 a (hlne a hal), hget2, if_neg hay]
  have hz2 : m2.heap.get z.addr = some nz := by rw [hget2, if_neg hap.ne, hz1]
  have hz3 : m3.heap.get z.addr = some nz := by rw [hget3 _ (hlne _ hap.zLeft), hz2]
  -- The run, the new tree with its root and cells, and then what did not change.
  refine ⟨m4, ?_, ?_, ?_, ?_, hnil4, ?_, ?_, ?_⟩
  · unfold replaceBy
    simp only [hm1, bind, Except.bind, node_of_get hz1]
    unfold setChild
    rw [hm2]
    simp only [node_of_get hy2, Node.setChild_left, hzleft, hm3, node_of_get hz3]
    exact hm4
  · refine ⟨?_, ?_, ?_, ?_, ?_⟩
    · have hr : m4.root = m1.root := (congrArg MapObj.root hobj4).trans
        ((congrArg MapObj.root hobj3).trans (congrArg MapObj.root hobj2))
      have hnew := treeAddr_plug m.nil p (.node c l y r') (.node c l z r')
      rw [hr, hroot1, hnil4, hnew]
      by_cases hp : p = []
      · rw [if_pos hp, if_pos hp, treeAddr_node]
      · rw [if_neg hp, if_neg hp]
        exact hroot hp
    · -- The path, the cell of `y`, and the two subtrees.
      rw [hnil4, treeAt_plug]
      refine ⟨?_, ?_, ?_, ?_⟩
      · refine hp1.congr fun a ha => hother a (hap.pathLeft a ha) ?_
        rintro rfl
        exact hap.yPath ha
      · have hy4 := hget4 y.addr
        rw [if_pos rfl] at hy4
        rw [hy4, ← hzred, ← hzleft]
        rfl
      · refine hl3.congr fun a ha => ?_
        rw [hget4, if_neg]
        rintro rfl
        exact hap.yLeft ha
      · refine hy1.2.2.congr fun a ha => hother a (fun hm => hap.leftRight a hm ha) ?_
        rintro rfl
        exact hap.yRight ha
    · exact hap.nodup c
    · rw [hnil4]
      exact hap.nil_notMem c
    · rw [hnil4, hother _ hap.nilLeft hap.yNil.symm]
      exact hn1
  · rw [hother _ hap.nilLeft hap.yNil.symm, hget1 _ hap.nilPath hap.yNil.symm]
  · rw [hother _ hap.zLeft hap.ne, hget1 _ hap.zPath hap.ne]
  · rw [congrArg MapObj.size hobj4, congrArg MapObj.size hobj3, congrArg MapObj.size hobj2, hsize1]
  · rw [hnext4, hnext3, hnext2, hnext1]
  · intro q hqp hql hqy
    rw [hother q hql hqy, hget1 q hqp hqy]

/-! ### The three branches -/

/-- `unlink` at a node without a left child. -/
theorem unlink_left {m : Map K V} {p : RbPath (Entry K V)} {c : Bool} {r : RbTree (Entry K V)}
    {z : Entry K V} (h : m.Rep (plug p (.node c .nil z r))) :
    ∃ m', m.unlink z.addr = .ok (treeAddr m.nil r, c, m') ∧ m'.Focus p r ∧
      (∃ n, m'.heap.get z.addr = some n) ∧
      Rewrites m m' (treeAddrs (plug p (.node c .nil z r))) := by
  have hn := h.node_join (d := .left)
  obtain ⟨m', hm', hfocus, hz, hrw⟩ := splice_spec (d := .left) h
  refine ⟨m', ?_, hfocus, ⟨_, hz.trans (node_eq_ok.mp hn)⟩, hrw⟩
  unfold unlink
  simp only [hn, bind, Except.bind, cell_left_left, cell_left_right, cell_isRed, treeAddr_nil,
    if_true, hm', pure, Except.pure]

/-- `unlink` at a node with a left child only. -/
theorem unlink_right {m : Map K V} {p : RbPath (Entry K V)} {c : Bool} {l : RbTree (Entry K V)}
    {z : Entry K V} (h : m.Rep (plug p (.node c l z .nil))) (hl : l ≠ .nil) :
    ∃ m', m.unlink z.addr = .ok (treeAddr m.nil l, c, m') ∧ m'.Focus p l ∧
      (∃ n, m'.heap.get z.addr = some n) ∧
      Rewrites m m' (treeAddrs (plug p (.node c l z .nil))) := by
  have hn := h.node_join (d := .left)
  have hne : treeAddr m.nil l ≠ m.nil := fun heq => hl (h.left_eq_nil.mp heq)
  obtain ⟨m', hm', hfocus, hz, hrw⟩ := splice_spec (d := .right) h
  refine ⟨m', ?_, hfocus, ⟨_, hz.trans (node_eq_ok.mp hn)⟩, hrw⟩
  unfold unlink
  simp only [hn, bind, Except.bind, cell_left_left, cell_left_right, cell_isRed, treeAddr_nil, hne,
    if_false, if_true, hm', pure, Except.pure]

/-- `unlink` at a node with two children: its successor `y` takes its place, and the hole is
where `y` was. -/
theorem unlink_both {m : Map K V} {p : RbPath (Entry K V)} {c : Bool} {l r : RbTree (Entry K V)}
    {z : Entry K V} (h : m.Rep (plug p (.node c l z r))) (hl : l ≠ .nil) (hr : r ≠ .nil)
    (hsize : (plug p (.node c l z r)).toList.length ≤ m.size) :
    ∃ m' ctx cy y yr, r = plug ctx (.node cy .nil y yr) ∧ (∀ f ∈ ctx, f.side = .left) ∧
      m.unlink z.addr = .ok (treeAddr m.nil yr, cy, m') ∧
      m'.Focus (ctx ++ ⟨.right, c, y, l⟩ :: p) yr ∧
      (∃ n, m'.heap.get z.addr = some n) ∧
      Rewrites m m' (treeAddrs (plug p (.node c l z r))) := by
  have hn := h.node_join (d := .left)
  obtain ⟨-, hcells⟩ := treeAt_plug.mp h.cells
  have hlne : treeAddr m.nil l ≠ m.nil := fun heq => hl (h.left_eq_nil.mp heq)
  have hrne : treeAddr m.nil r ≠ m.nil := fun heq => hr (h.right_eq_nil.mp heq)
  have hheight : r.height ≤ m.fuel := by
    have h1 := RbTree.height_le_length r
    have h2 := (RbPath.toList_plug_perm p (.node c l z r)).length_eq
    simp only [List.length_append, RbTree.toList_node, List.length_cons] at h2
    unfold fuel
    omega
  obtain ⟨ctx, cy, y, yr, hmin, rfl, hctx⟩ :=
    extremeLoop_spec .left m.fuel hcells.2.2 h.nil_notMem_children.2 hr hheight
  have hap := h.apart
  have hy : m.Rep (plug (ctx ++ ⟨.right, c, z, l⟩ :: p) (.node cy .nil y yr)) := by
    rw [RbPath.plug_append]
    exact h
  have hny := hy.node_join (d := .left)
  -- First the successor leaves its place, then it takes the place of `z`.
  obtain ⟨m1, hm1, hroot1, hdet, hnil1, hrw1⟩ := detachNext_spec h
  have hap1 : Apart m1.nil p l (plug ctx yr) z.addr y.addr := by
    rw [hrw1.nil]
    exact hap
  obtain ⟨m2, hm2, hrep2, hnil2, hz2, hmnil2, hsize2, hnext2, hget2⟩ :=
    replaceBy_spec hdet hap1 hl fun _ => by
      rw [hroot1, h.root, hrw1.nil]
      exact treeAddr_plug_congr m.nil p rfl
  obtain ⟨nz, hz1, -⟩ := hdet.zCell
  have hsplit : plug p (.node c l y (plug ctx yr)) = plug (ctx ++ ⟨.right, c, y, l⟩ :: p) yr := by
    rw [RbPath.plug_append]
    rfl
  rw [hsplit] at hrep2
  refine ⟨m2, ctx, cy, y, yr, rfl, hctx, ?_, ⟨hrep2, ?_⟩, ⟨nz, hz2.trans hz1⟩,
    hmnil2.trans hrw1.nil, hsize2.trans hrw1.size, hnext2.trans hrw1.next, ?_⟩
  · unfold unlink minimum
    simp only [hn, bind, Except.bind, cell_left_left, cell_left_right, cell_isRed, hlne, hrne,
      if_false, hmin, hny, hm1, hm2, pure, Except.pure]
  · by_cases hleaf : yr = .nil
    · subst hleaf
      obtain ⟨n, hn, hpar⟩ := hnil1 rfl
      obtain ⟨n', hn', hb, -, -⟩ := hrep2.nilCell
      have hsame : m2.heap.get m2.nil = some n := by rw [hmnil2, hnil2, hrw1.nil, hn]
      obtain rfl : n = n' := Option.some.inj (hsame.symm.trans hn')
      refine ⟨n, ?_, hb, ?_⟩
      · rw [treeAddr_nil, node_eq_ok, hsame]
      · rw [hpar, hmnil2, hrw1.nil]
    · exact (Focus.of_ne_nil hrep2 hleaf).parent
  · intro q hqn hq
    have hq' := hq
    rw [show RbTree.join .left cy .nil y yr = .node cy .nil y yr from rfl,
      mem_treeAddrs_next] at hq'
    simp only [not_or] at hq'
    rw [hget2 q hq'.1 hq'.2.2.1 hq'.2.2.2.1, hrw1.get q hqn hq]

/-- What `unlink` does at the node `z`: the rest of the tree is `t` in the hole of `q`, and it
is red-black, or one black node short if the colour that left the tree is black. -/
structure Unlinked (m m' : Map K V) (p : RbPath (Entry K V)) (c : Bool) (l : RbTree (Entry K V))
    (z : Entry K V) (r : RbTree (Entry K V)) (isRed : Bool) (q : RbPath (Entry K V))
    (t : RbTree (Entry K V)) : Prop where
  run : m.unlink z.addr = .ok (treeAddr m.nil t, isRed, m')
  focus : m'.Focus q t
  red : isRed = true → (plug q t).IsRedBlack
  black : isRed = false → ∃ n, DeleteReady q t n
  entries : (plug q t).toList = before p ++ (l.toList ++ r.toList) ++ after p
  zCell : ∃ n, m'.heap.get z.addr = some n
  rewrites : Rewrites m m' (treeAddrs (plug p (.node c l z r)))

/-- Without a left child the right subtree takes the place of `z`. -/
theorem unlinked_left {m : Map K V} {p : RbPath (Entry K V)} {c : Bool} {r : RbTree (Entry K V)}
    {z : Entry K V} (h : m.Rep (plug p (.node c .nil z r)))
    (hrb : (plug p (.node c .nil z r)).IsRedBlack) :
    ∃ m', Unlinked m m' p c .nil z r c p r := by
  obtain ⟨m', hm', hfocus, hz, hrw⟩ := unlink_left h
  refine ⟨m', hm', hfocus, ?_, ?_, ?_, hz, hrw⟩
  · rintro rfl
    exact isRedBlack_splice (d := .left) hrb
  · rintro rfl
    exact DeleteReady.of_splice (d := .left) hrb
  · rw [RbPath.toList_plug]
    simp

/-- Without a right child the left subtree takes the place of `z`. -/
theorem unlinked_right {m : Map K V} {p : RbPath (Entry K V)} {c : Bool} {l : RbTree (Entry K V)}
    {z : Entry K V} (h : m.Rep (plug p (.node c l z .nil)))
    (hrb : (plug p (.node c l z .nil)).IsRedBlack) (hl : l ≠ .nil) :
    ∃ m', Unlinked m m' p c l z .nil c p l := by
  obtain ⟨m', hm', hfocus, hz, hrw⟩ := unlink_right h hl
  refine ⟨m', hm', hfocus, ?_, ?_, ?_, hz, hrw⟩
  · rintro rfl
    exact isRedBlack_splice (d := .right) hrb
  · rintro rfl
    exact DeleteReady.of_splice (d := .right) hrb
  · rw [RbPath.toList_plug]
    simp

/-- With two children the successor `y` takes the place of `z`, and its right subtree takes the
place of `y`. -/
theorem unlinked_both {m : Map K V} {p : RbPath (Entry K V)} {c : Bool} {l r : RbTree (Entry K V)}
    {z : Entry K V} (h : m.Rep (plug p (.node c l z r)))
    (hrb : (plug p (.node c l z r)).IsRedBlack) (hl : l ≠ .nil) (hr : r ≠ .nil)
    (hsize : (plug p (.node c l z r)).toList.length ≤ m.size) :
    ∃ m' ctx cy y yr, r = plug ctx (.node cy .nil y yr) ∧ (∀ f ∈ ctx, f.side = .left) ∧
      (plug (ctx ++ ⟨.right, c, y, l⟩ :: p) (.node cy .nil y yr)).IsRedBlack ∧
      Unlinked m m' p c l z r cy (ctx ++ ⟨.right, c, y, l⟩ :: p) yr := by
  obtain ⟨m', ctx, cy, y, yr, rfl, hctx, hm', hfocus, hz, hrw⟩ := unlink_both h hl hr hsize
  -- With `y` in the place of `z` the tree has the same shape and colours.
  have hrb' : (plug (ctx ++ ⟨.right, c, y, l⟩ :: p) (.node cy .nil y yr)).IsRedBlack := by
    refine isRedBlack_plug_congr (f := ⟨.right, c, z, l⟩) rfl rfl ?_
    rw [RbPath.plug_append]
    exact hrb
  refine ⟨m', ctx, cy, y, yr, rfl, hctx, hrb', hm', hfocus, ?_, ?_, ?_, hz, hrw⟩
  · rintro rfl
    exact isRedBlack_splice (d := .left) hrb'
  · rintro rfl
    exact DeleteReady.of_splice (d := .left) hrb'
  · have hy := toList_plug_left (c := cy) (y := y) (u := yr) hctx
    rw [show RbTree.node cy .nil y yr = RbTree.join .left cy .nil y yr from rfl, hy,
      RbPath.toList_plug, RbPath.before_append, RbPath.after_append]
    simp [before, after, before_eq_nil hctx]

/-- `unlink` at any node of a red-black tree. -/
theorem unlink_spec {m : Map K V} {p : RbPath (Entry K V)} {c : Bool} {l r : RbTree (Entry K V)}
    {z : Entry K V} (h : m.Rep (plug p (.node c l z r)))
    (hrb : (plug p (.node c l z r)).IsRedBlack)
    (hsize : (plug p (.node c l z r)).toList.length ≤ m.size) :
    ∃ m' isRed q t, Unlinked m m' p c l z r isRed q t := by
  by_cases hl : l = .nil
  · subst hl
    obtain ⟨m', h'⟩ := unlinked_left h hrb
    exact ⟨m', c, p, r, h'⟩
  · by_cases hr : r = .nil
    · subst hr
      obtain ⟨m', h'⟩ := unlinked_right h hrb hl
      exact ⟨m', c, p, l, h'⟩
    · obtain ⟨m', ctx, cy, y, yr, -, -, -, h'⟩ := unlinked_both h hrb hl hr hsize
      exact ⟨m', cy, _, yr, h'⟩

end KernelEventsTrace.Driver.Std.Map
