import KernelEventsTrace.Proofs.Map.Rep

/-!
# `KernelEventsTrace.Proofs.Map.Rotate`: painting and rotating a represented tree

`setRed_spec` and `rotate_spec` say what the two building blocks of the fix-up loops do to
the represented tree, at any position of it. The position is given by a path `p`. Both
leave the sentinel alone and change only cells of the tree.

`rotate_spec` covers `LeftRotate` and `RightRotate`: the node `x` goes down to side `d`, its
other child `y` goes up, and the middle subtree `t2` changes its parent.
-/

set_option autoImplicit false

namespace KernelEventsTrace.Driver.Std

open KernelEventsTrace.RedBlack
open KernelEventsTrace.RedBlack.RbPath (plug)

variable {K V : Type}

/-- A tree in memory below another parent: only the cell of its root differs. -/
theorem TreeAt.reparent {get get' : Ptr → Option (Node K V)} {nil par x : Ptr}
    {t : RbTree (Entry K V)} (h : TreeAt get nil par t) (hnd : (treeAddrs t).Nodup)
    (hg : ∀ q, q ∈ treeAddrs t → get' q =
      if q = treeAddr nil t then (get q).map fun n => { n with parent := x } else get q) :
    TreeAt get' nil x t := by
  cases t with
  | nil => trivial
  | node c l e r =>
    obtain ⟨he, hl, hr⟩ := h
    have hnd' := nodup_treeAddrs_join (d := .left) (c := c) (t := l) (u := r) (e := e)
    rw [show RbTree.join .left c l e r = .node c l e r from rfl] at hnd'
    obtain ⟨hel, her, -, -, -⟩ := hnd'.mp hnd
    have hmem : ∀ a, a ∈ treeAddrs (.node c l e r) ↔
        a = e.addr ∨ a ∈ treeAddrs l ∨ a ∈ treeAddrs r :=
      fun a => mem_treeAddrs_join (d := .left)
    refine ⟨?_, hl.congr fun a ha => ?_, hr.congr fun a ha => ?_⟩
    · rw [hg _ ((hmem _).mpr (Or.inl rfl))]
      simp [he]
    · rw [hg a ((hmem a).mpr (Or.inr (Or.inl ha))), if_neg]
      rintro rfl
      exact hel ha
    · rw [hg a ((hmem a).mpr (Or.inr (Or.inr ha))), if_neg]
      rintro rfl
      exact her ha

/-- The cell of the root of a nonempty tree in memory. -/
theorem TreeAt.get_root {get : Ptr → Option (Node K V)} {nil par : Ptr}
    {t : RbTree (Entry K V)} (h : TreeAt get nil par t) (ht : t ≠ .nil) :
    ∃ n, get (treeAddr nil t) = some n ∧ n.parent = par ∧ n.isRed = t.isRed := by
  cases t with
  | nil => exact absurd rfl ht
  | node c l e r => exact ⟨_, h.1, rfl, rfl⟩

/-- The root of a whole tree depends on the subtree in the hole by its root only. -/
theorem treeAddr_plug_congr (nil : Ptr) (p : RbPath (Entry K V)) {t u : RbTree (Entry K V)}
    (h : treeAddr nil t = treeAddr nil u) :
    treeAddr nil (plug p t) = treeAddr nil (plug p u) := by
  induction p generalizing t u with
  | nil => exact h
  | cons f p ih => exact ih (by simp [Frame.fill])

/-- The root of a whole tree with a hole below it is the root of the path. -/
theorem treeAddr_plug (nil : Ptr) (p : RbPath (Entry K V)) (t u : RbTree (Entry K V)) :
    treeAddr nil (plug p t) = if p = [] then treeAddr nil t else treeAddr nil (plug p u) := by
  cases p with
  | nil => rfl
  | cons f p =>
    rw [if_neg (by simp)]
    exact treeAddr_plug_congr nil p (by simp [Frame.fill])

namespace Map

/-- The colour of a represented subtree, read from memory. A leaf is the black sentinel. -/
theorem Rep.node_treeAddr {m : Map K V} {p : RbPath (Entry K V)} {t : RbTree (Entry K V)}
    (h : m.Rep (plug p t)) : ∃ n, m.node (treeAddr m.nil t) = .ok n ∧ n.isRed = t.isRed := by
  cases t with
  | nil =>
    obtain ⟨n, hn, hred, -, -⟩ := h.nilCell
    exact ⟨n, node_of_get hn, hred⟩
  | node c l e r =>
    obtain ⟨-, ht⟩ := treeAt_plug.mp h.cells
    exact ⟨_, node_of_get ht.1, rfl⟩

/-- The cell of a node of the represented tree, with its child on side `d` first. -/
theorem Rep.node_join {m : Map K V} {p : RbPath (Entry K V)} {d : Side} {c : Bool}
    {t u : RbTree (Entry K V)} {e : Entry K V} (h : m.Rep (plug p (RbTree.join d c t e u))) :
    m.node e.addr =
      .ok (cell d c e (pathAddr m.nil p) (treeAddr m.nil t) (treeAddr m.nil u)) :=
  node_of_get (treeAt_join.mp (treeAt_plug.mp h.cells).2).1

/-- The cell of the node above a hole. -/
theorem Rep.node_frame {m : Map K V} {f : Frame (Entry K V)} {p : RbPath (Entry K V)}
    {t : RbTree (Entry K V)} (h : m.Rep (plug (f :: p) t)) :
    m.node f.elem.addr = .ok (cell f.side f.isRed f.elem (pathAddr m.nil p)
      (treeAddr m.nil t) (treeAddr m.nil f.sib)) :=
  Rep.node_join (p := p) h

/-- A node of the represented tree is not the sentinel. -/
theorem Rep.addr_ne_nil {m : Map K V} {p : RbPath (Entry K V)} {d : Side} {c : Bool}
    {t u : RbTree (Entry K V)} {e : Entry K V} (h : m.Rep (plug p (RbTree.join d c t e u))) :
    e.addr ≠ m.nil := by
  intro heq
  refine h.nil_notMem (mem_treeAddrs_plug.mpr (Or.inr (mem_treeAddrs_join.mpr (Or.inl ?_))))
  exact heq.symm

/-- The sentinel is no node of a represented subtree. -/
theorem Rep.nil_notMem_sub {m : Map K V} {p : RbPath (Entry K V)} {t : RbTree (Entry K V)}
    (h : m.Rep (plug p t)) : m.nil ∉ treeAddrs t :=
  fun hm => h.nil_notMem (mem_treeAddrs_plug.mpr (Or.inr hm))

/-- The sentinel is in neither subtree. -/
theorem Rep.nil_notMem_children {m : Map K V} {p : RbPath (Entry K V)} {c : Bool}
    {l r : RbTree (Entry K V)} {e : Entry K V} (h : m.Rep (plug p (.node c l e r))) :
    m.nil ∉ treeAddrs l ∧ m.nil ∉ treeAddrs r := by
  have hsub := h.nil_notMem_sub
  rw [mem_treeAddrs_node] at hsub
  simp only [not_or] at hsub
  exact hsub.2

/-- The left link of a represented node leads to the sentinel only if there is no left child. -/
theorem Rep.left_eq_nil {m : Map K V} {p : RbPath (Entry K V)} {c : Bool}
    {l r : RbTree (Entry K V)} {e : Entry K V} (h : m.Rep (plug p (.node c l e r))) :
    treeAddr m.nil l = m.nil ↔ l = .nil :=
  treeAddr_eq_nil_iff h.nil_notMem_children.1

/-- The same for the right link. -/
theorem Rep.right_eq_nil {m : Map K V} {p : RbPath (Entry K V)} {c : Bool}
    {l r : RbTree (Entry K V)} {e : Entry K V} (h : m.Rep (plug p (.node c l e r))) :
    treeAddr m.nil r = m.nil ↔ r = .nil :=
  treeAddr_eq_nil_iff h.nil_notMem_children.2

/-- The parent of the node at the hole, read from memory. -/
theorem Rep.node_red {m : Map K V} {p : RbPath (Entry K V)} {t : RbTree (Entry K V)}
    (h : m.Rep (plug p t)) (ht : t.isRed = true) :
    ∃ n, m.node (treeAddr m.nil t) = .ok n ∧ n.parent = pathAddr m.nil p := by
  obtain ⟨-, hcells⟩ := treeAt_plug.mp h.cells
  have hne : t ≠ .nil := by
    intro hnil
    subst hnil
    simp at ht
  obtain ⟨n, hn, hpar, -⟩ := hcells.get_root hne
  exact ⟨n, node_of_get hn, hpar⟩

/-- The subtree in the hole and its sibling start at different addresses, unless both are
leaves. -/
theorem Rep.addr_ne_sib {m : Map K V} {f : Frame (Entry K V)} {p : RbPath (Entry K V)}
    {t : RbTree (Entry K V)} (h : m.Rep (plug (f :: p) t)) (ht : t ≠ .nil ∨ f.sib ≠ .nil) :
    treeAddr m.nil t ≠ treeAddr m.nil f.sib := by
  intro heq
  obtain ⟨-, -, hdis⟩ := nodup_treeAddrs_plug.mp h.nodup
  have hsib : ∀ a, a ∈ treeAddrs f.sib → a ∈ pathAddrs (f :: p) := by
    intro a ha
    simp [ha]
  have hnils : m.nil ∉ treeAddrs f.sib := fun hm =>
    h.nil_notMem (mem_treeAddrs_plug.mpr (Or.inl (hsib _ hm)))
  -- Two nodes have different addresses, and the sentinel is no node.
  rcases treeAddr_mem m.nil t with hmt | rfl
  · rcases treeAddr_mem m.nil f.sib with hms | hs
    · exact hdis _ (hsib _ hms) (heq ▸ hmt)
    · rw [heq, hs] at hmt
      exact h.nil_notMem_sub hmt
  · have hs : f.sib = .nil := (treeAddr_eq_nil_iff hnils).mp heq.symm
    simp [hs] at ht

/-- The link of the node above the hole on side `d` leads into the hole exactly when the hole
is on side `d`. -/
theorem Rep.child_iff {m : Map K V} {f : Frame (Entry K V)} {p : RbPath (Entry K V)}
    {t : RbTree (Entry K V)} (h : m.Rep (plug (f :: p) t)) (ht : t ≠ .nil ∨ f.sib ≠ .nil)
    (d : Side) :
    treeAddr m.nil t = (cell f.side f.isRed f.elem (pathAddr m.nil p) (treeAddr m.nil t)
      (treeAddr m.nil f.sib)).child d ↔ f.side = d := by
  rcases Side.eq_or_eq_flip d f.side with hd | hd
  · rw [hd, cell_child]
    simp
  · rw [hd, cell_child_flip]
    constructor
    · intro heq
      exact absurd heq (h.addr_ne_sib ht)
    · intro heq
      exact absurd heq.symm (Side.flip_ne _)

/-- A write to the colour and the entry of a node of the represented tree. -/
theorem updateCell_spec {m : Map K V} {p : RbPath (Entry K V)} {d : Side} {c : Bool}
    {t u : RbTree (Entry K V)} {e : Entry K V} (b : Bool) (e' : Entry K V)
    (f : Node K V → Node K V) (ha : e'.addr = e.addr)
    (hf : ∀ par x y, f (cell d c e par x y) = cell d b e' par x y)
    (h : m.Rep (plug p (RbTree.join d c t e u))) :
    ∃ m', m.update e.addr f = .ok m' ∧ m'.Rep (plug p (RbTree.join d b t e' u)) ∧
      Changes m m' (treeAddrs (plug p (RbTree.join d c t e u))) := by
  obtain ⟨hpath, htree⟩ := treeAt_plug.mp h.cells
  obtain ⟨he, ht, hu⟩ := treeAt_join.mp htree
  obtain ⟨hnp, hnt, hdis⟩ := nodup_treeAddrs_plug.mp h.nodup
  obtain ⟨het, heu, -, -, -⟩ := nodup_treeAddrs_join.mp hnt
  have hnil := h.addr_ne_nil
  obtain ⟨m', hm', hobj, hnext, hget⟩ := update_spec he f
  rw [hf] at hget
  have hnil' : m'.nil = m.nil := congrArg MapObj.nil hobj
  have hother : ∀ q, q ≠ e.addr → m'.heap.get q = m.heap.get q := fun q hq => by
    rw [hget, if_neg hq]
  have hperm : treeAddrs (plug p (RbTree.join d b t e' u)) =
      treeAddrs (plug p (RbTree.join d c t e u)) := by
    simp only [treeAddrs, RbPath.toList_plug]
    cases d <;> simp [RbTree.join, ha]
  refine ⟨m', hm', ⟨?_, ?_, ?_, ?_, ?_⟩, ⟨hnil', congrArg MapObj.size hobj, hnext, ?_⟩⟩
  · rw [congrArg MapObj.root hobj, h.root, hnil']
    exact treeAddr_plug_congr m.nil p (by simp [ha])
  · rw [hnil', treeAt_plug, treeAt_join, ha]
    refine ⟨?_, ?_, ht.congr fun a ha => hother a ?_, hu.congr fun a ha => hother a ?_⟩
    · rw [treeAddr_join, ha]
      rw [treeAddr_join] at hpath
      refine hpath.congr fun a ha => hother a ?_
      rintro rfl
      exact hdis _ ha (mem_treeAddrs_join.mpr (Or.inl rfl))
    · rw [hget, if_pos rfl]
    · rintro rfl
      exact het ha
    · rintro rfl
      exact heu ha
  · rw [hperm]
    exact h.nodup
  · rw [hperm, hnil']
    exact h.nil_notMem
  · rw [hnil', hother _ hnil.symm]
    exact h.nilCell
  · intro q hq
    refine hother q ?_
    rintro rfl
    exact hq (mem_treeAddrs_plug.mpr (Or.inr (mem_treeAddrs_join.mpr (Or.inl rfl))))

/-- `p->is_red = c` at a node of the represented tree paints that node. -/
theorem setRed_spec {m : Map K V} {p : RbPath (Entry K V)} {d : Side} {c : Bool}
    {t u : RbTree (Entry K V)} {e : Entry K V} (b : Bool)
    (h : m.Rep (plug p (RbTree.join d c t e u))) :
    ∃ m', m.setRed e.addr b = .ok m' ∧ m'.Rep (plug p (RbTree.join d b t e u)) ∧
      Changes m m' (treeAddrs (plug p (RbTree.join d c t e u))) :=
  updateCell_spec b e (fun n => { n with isRed := b }) rfl (fun _ _ _ => cell_with_isRed b) h

/-- Painting a represented subtree black. A leaf is the sentinel, which is black. -/
theorem setRed_paint_spec {m : Map K V} {p : RbPath (Entry K V)} {t : RbTree (Entry K V)}
    (h : m.Rep (plug p t)) :
    ∃ m', m.setRed (treeAddr m.nil t) false = .ok m' ∧ m'.Rep (plug p (t.paint false)) ∧
      Changes m m' (treeAddrs (plug p t)) := by
  cases t with
  | node c l e r => exact setRed_spec (d := .left) false h
  | nil =>
    obtain ⟨n, hn, hred, hl, hr⟩ := h.nilCell
    obtain ⟨m', hm', hobj, hnext, hget⟩ := update_spec hn fun n => { n with isRed := false }
    have hnil' : m'.nil = m.nil := congrArg MapObj.nil hobj
    -- The write to the sentinel stores the colour it has.
    have hsame : ∀ q, m'.heap.get q = m.heap.get q := by
      intro q
      rw [hget]
      by_cases hq : q = m.nil
      · rw [if_pos hq, hq, hn, ← hred]
      · rw [if_neg hq]
    refine ⟨m', hm', ⟨?_, ?_, h.nodup, ?_, ?_⟩,
      ⟨hnil', congrArg MapObj.size hobj, hnext, fun q _ => hsame q⟩⟩
    · rw [congrArg MapObj.root hobj, hnil']
      exact h.root
    · rw [hnil', funext hsame]
      exact h.cells
    · rw [hnil']
      exact h.nil_notMem
    · rw [hnil', hsame]
      exact h.nilCell

/-- The guarded write of a rotation: the subtree `t`, if it is a node, gets the parent `x`. -/
theorem setParentUnlessNil_spec {m : Map K V} {t : RbTree (Entry K V)} {par x : Ptr}
    (ht : TreeAt m.heap.get m.nil par t) (hnd : (treeAddrs t).Nodup)
    (hnil : m.nil ∉ treeAddrs t) :
    ∃ m', m.setParentUnlessNil (treeAddr m.nil t) x = .ok m' ∧
      m'.toMapObj = m.toMapObj ∧ m'.heap.next = m.heap.next ∧
      TreeAt m'.heap.get m.nil x t ∧
      ∀ q, q ∉ treeAddrs t → m'.heap.get q = m.heap.get q := by
  by_cases hleaf : t = .nil
  · subst hleaf
    exact ⟨m, by simp [setParentUnlessNil], rfl, rfl, trivial, fun q _ => rfl⟩
  · have hne : treeAddr m.nil t ≠ m.nil := fun h => hleaf ((treeAddr_eq_nil_iff hnil).mp h)
    obtain ⟨n, hn, -, -⟩ := ht.get_root hleaf
    obtain ⟨m', hm', hobj, hnext, hget⟩ := update_spec hn fun n => { n with parent := x }
    refine ⟨m', by rw [setParentUnlessNil, if_pos hne]; exact hm', hobj, hnext, ?_, ?_⟩
    · refine ht.reparent hnd fun q _ => ?_
      rw [hget]
      split
      · rename_i hq
        rw [hq, hn]
        rfl
      · rfl
    · intro q hq
      rw [hget, if_neg]
      rintro rfl
      exact hq ((treeAddr_mem m.nil t).resolve_right hleaf)

/-- A rotation keeps the order of the entries, and with it the list of addresses. -/
theorem treeAddrs_rotate (p : RbPath (Entry K V)) (d : Side) (c c' : Bool)
    (t1 t2 t3 : RbTree (Entry K V)) (x y : Entry K V) :
    treeAddrs (plug p (RbTree.join d c' (RbTree.join d c t1 x t2) y t3)) =
      treeAddrs (plug p (RbTree.join d c t1 x (RbTree.join d c' t2 y t3))) :=
  congrArg (List.map Entry.addr)
    (RbPath.toList_plug_congr p (RbTree.toList_join_join d c' c c c' t1 t2 t3 x y))

/-- The memory after a rotation moved `x` down to side `d`, below its child `y`. Besides the path,
`x` and `y`, only the parent of the middle subtree `t2` may have changed. -/
structure Rotated (m m' : Map K V) (p : RbPath (Entry K V)) (d : Side) (c c' : Bool)
    (t1 t2 t3 : RbTree (Entry K V)) (x y : Entry K V) : Prop where
  nil : m'.nil = m.nil
  size : m'.size = m.size
  next : m'.heap.next = m.heap.next
  root : m'.root = if p = [] then y.addr else m.root
  path : PathAt m'.heap.get m.nil y.addr p
  xCell : m'.heap.get x.addr = some (cell d c x y.addr (treeAddr m.nil t1) (treeAddr m.nil t2))
  yCell : m'.heap.get y.addr =
    some (cell d c' y (pathAddr m.nil p) x.addr (treeAddr m.nil t3))
  middle : TreeAt m'.heap.get m.nil x.addr t2
  get : ∀ a, a ∉ pathAddrs p → a ≠ x.addr → a ≠ y.addr → a ∉ treeAddrs t2 →
    m'.heap.get a = m.heap.get a

/-- The writes of a rotation, one after the other. -/
theorem rotate_run {m : Map K V} {p : RbPath (Entry K V)} {d : Side} {c c' : Bool}
    {t1 t2 t3 : RbTree (Entry K V)} {x y : Entry K V}
    (h : m.Rep (plug p (RbTree.join d c t1 x (RbTree.join d c' t2 y t3)))) :
    ∃ m', rotate d m x.addr = .ok m' ∧ Rotated m m' p d c c' t1 t2 t3 x y := by
  obtain ⟨hpath, htree⟩ := treeAt_plug.mp h.cells
  obtain ⟨hx, -, hyt⟩ := treeAt_join.mp htree
  obtain ⟨hy, h2, -⟩ := treeAt_join.mp hyt
  obtain ⟨hnp, hnt, hdis⟩ := nodup_treeAddrs_plug.mp h.nodup
  obtain ⟨-, hxy, -, hny, -⟩ := nodup_treeAddrs_join.mp hnt
  obtain ⟨hy2, -, hn2, -, -⟩ := nodup_treeAddrs_join.mp hny
  have hnil := h.nil_notMem
  simp only [mem_treeAddrs_plug, mem_treeAddrs_join, not_or] at hnil hxy hdis
  simp only [treeAddr_join] at hpath hx
  obtain ⟨hnilp, hnilx, -, hnily, hnil2, -⟩ := hnil
  obtain ⟨hxney, hx2, -⟩ := hxy
  have hyp : y.addr ∉ pathAddrs p := fun hm => (hdis _ hm).2.2.1 rfl
  have hxp : x.addr ∉ pathAddrs p := fun hm => (hdis _ hm).1 rfl
  -- `x` loses `y` and gets the middle subtree.
  obtain ⟨ma, hma, hobja, hnexta, hgeta⟩ :=
    update_spec hx (Node.setChild d.flip (treeAddr m.nil t2))
  have hnila : ma.nil = m.nil := congrArg MapObj.nil hobja
  have hya : ma.heap.get y.addr = some (cell d c' y x.addr (treeAddr m.nil t2)
      (treeAddr m.nil t3)) := by
    rw [hgeta, if_neg (Ne.symm hxney), hy]
  -- The middle subtree gets `x` as its parent.
  have h2a : TreeAt ma.heap.get ma.nil y.addr t2 := by
    rw [hnila]
    refine h2.congr fun a ha => ?_
    rw [hgeta, if_neg]
    rintro rfl
    exact hx2 ha
  obtain ⟨mb, hmb, hobjb, hnextb, h2b, hgetb⟩ :=
    setParentUnlessNil_spec (x := x.addr) h2a hn2 (by rw [hnila]; exact hnil2)
  rw [hnila] at hmb h2b
  have hnilb : mb.nil = m.nil := (congrArg MapObj.nil hobjb).trans hnila
  have hxb : mb.heap.get x.addr = some (cell d c x (pathAddr m.nil p) (treeAddr m.nil t1)
      (treeAddr m.nil t2)) := by
    rw [hgetb _ hx2, hgeta, if_pos rfl, setChild_flip_cell]
  have hyb : mb.heap.get y.addr = some (cell d c' y x.addr (treeAddr m.nil t2)
      (treeAddr m.nil t3)) := by
    rw [hgetb _ hy2, hya]
  -- `y` gets the parent of `x`.
  obtain ⟨mc, hmc, hobjc, hnextc, hgetc⟩ :=
    update_spec hyb fun n => { n with parent := pathAddr m.nil p }
  have hnilc : mc.nil = m.nil := (congrArg MapObj.nil hobjc).trans hnilb
  have hxc : mc.heap.get x.addr = some (cell d c x (pathAddr m.nil p) (treeAddr m.nil t1)
      (treeAddr m.nil t2)) := by
    rw [hgetc, if_neg hxney, hxb]
  -- The parent of `x` gets `y` as its child.
  have hpathc : PathAt mc.heap.get mc.nil x.addr p := by
    rw [hnilc]
    refine hpath.congr fun a ha => ?_
    have hda := hdis a ha
    rw [hgetc, if_neg hda.2.2.1 |>.trans rfl, hgetb _ hda.2.2.2.1, hgeta, if_neg hda.1]
  obtain ⟨md, hmd, hnild, hsized, hnextd, hrootd, hpathd, hgetd⟩ :=
    relink_spec (v := y.addr) hxc (by rw [cell_parent, hnilc]) hpathc
      (by rw [hnilc]; exact hnilp) hnp hxp
      (by rw [hnilc]; exact fun heq => hnilx heq.symm)
  rw [hnilc] at hnild hpathd
  have hyd : md.heap.get y.addr = some (cell d c' y (pathAddr m.nil p) (treeAddr m.nil t2)
      (treeAddr m.nil t3)) := by
    rw [hgetd _ hyp, hgetc, if_pos rfl, cell_with_parent]
  -- `y` gets `x` as its child, and `x` gets `y` as its parent.
  obtain ⟨me, hme, hobje, hnexte, hgete⟩ := update_spec hyd (Node.setChild d x.addr)
  have hxe : me.heap.get x.addr = some (cell d c x (pathAddr m.nil p) (treeAddr m.nil t1)
      (treeAddr m.nil t2)) := by
    rw [hgete, if_neg hxney, hgetd _ hxp, hxc]
  obtain ⟨mf, hmf, hobjf, hnextf, hgetf⟩ :=
    update_spec hxe fun n => { n with parent := y.addr }
  have hrun : rotate d m x.addr = .ok mf := by
    have hxn : x.addr ≠ m.nil := fun heq => hnilx heq.symm
    have hyn : y.addr ≠ m.nil := fun heq => hnily heq.symm
    unfold rotate
    simp only [node_of_get hx, node_of_get hy, cell_child, cell_child_flip, bind, Except.bind,
      hxn, hyn, or_self, if_false]
    simp only [setChild, setParent, hma, node_of_get hya, cell_child, hmb, node_of_get hxb,
      cell_parent, hmc, hmd, hme, hmf]
  have hsub : ∀ a, a ∉ pathAddrs p → a ≠ x.addr → a ≠ y.addr →
      mf.heap.get a = mb.heap.get a := by
    intro a hap hax hay
    rw [hgetf, if_neg hax, hgete, if_neg hay, hgetd _ hap, hgetc, if_neg hay]
  refine ⟨mf, hrun, ⟨?_, ?_, ?_, ?_, ?_, ?_, ?_, ?_, ?_⟩⟩
  · rw [congrArg MapObj.nil hobjf, congrArg MapObj.nil hobje, hnild]
  · rw [congrArg MapObj.size hobjf, congrArg MapObj.size hobje, hsized,
      congrArg MapObj.size hobjc, congrArg MapObj.size hobjb, congrArg MapObj.size hobja]
  · rw [hnextf, hnexte, hnextd, hnextc, hnextb, hnexta]
  · rw [congrArg MapObj.root hobjf, congrArg MapObj.root hobje, hrootd,
      congrArg MapObj.root hobjc, congrArg MapObj.root hobjb, congrArg MapObj.root hobja]
  · refine hpathd.congr fun a ha => ?_
    have hda := hdis a ha
    rw [hgetf, if_neg hda.1, hgete, if_neg hda.2.2.1]
  · rw [hgetf, if_pos rfl, cell_with_parent]
  · rw [hgetf, if_neg (Ne.symm hxney), hgete, if_pos rfl, setChild_cell]
  · refine h2b.congr fun a ha => hsub a (fun hm => (hdis a hm).2.2.2.1 ha) ?_ ?_
    · rintro rfl
      exact hx2 ha
    · rintro rfl
      exact hy2 ha
  · intro a hap hax hay ha2
    rw [hsub a hap hax hay, hgetb _ ha2, hgeta, if_neg hax]

/-- The rotation that moves `x` down to side `d`: its child `y` on the other side takes its
place, and `t2` moves from `y` to `x`. -/
theorem rotate_spec {m : Map K V} {p : RbPath (Entry K V)} {d : Side} {c c' : Bool}
    {t1 t2 t3 : RbTree (Entry K V)} {x y : Entry K V}
    (h : m.Rep (plug p (RbTree.join d c t1 x (RbTree.join d c' t2 y t3)))) :
    ∃ m', rotate d m x.addr = .ok m' ∧
      m'.Rep (plug p (RbTree.join d c' (RbTree.join d c t1 x t2) y t3)) ∧
      Changes m m' (treeAddrs (plug p (RbTree.join d c t1 x (RbTree.join d c' t2 y t3)))) := by
  obtain ⟨m', hrun, hrot⟩ := rotate_run h
  obtain ⟨-, htree⟩ := treeAt_plug.mp h.cells
  obtain ⟨-, h1, hyt⟩ := treeAt_join.mp htree
  obtain ⟨-, -, h3⟩ := treeAt_join.mp hyt
  obtain ⟨-, hnt, hdis⟩ := nodup_treeAddrs_plug.mp h.nodup
  obtain ⟨hx1, hxy, -, hny, hdis1⟩ := nodup_treeAddrs_join.mp hnt
  obtain ⟨-, hy3, -, -, hdis2⟩ := nodup_treeAddrs_join.mp hny
  have hnil := h.nil_notMem
  simp only [mem_treeAddrs_plug, mem_treeAddrs_join, not_or] at hnil hxy hdis hdis1
  obtain ⟨hnilp, hnilx, -, hnily, hnil2, -⟩ := hnil
  refine ⟨m', hrun, ⟨?_, ?_, ?_, ?_, ?_⟩, hrot.nil, hrot.size, hrot.next, ?_⟩
  · -- `root_` changes only if the path is empty.
    have hnew := treeAddr_plug m.nil p (RbTree.join d c' (RbTree.join d c t1 x t2) y t3)
      (RbTree.join d c t1 x (RbTree.join d c' t2 y t3))
    rw [hrot.root, hrot.nil, hnew, h.root, treeAddr_join]
  · -- The path, the cells of `y` and `x`, and the subtrees `t1`, `t2` and `t3`.
    rw [hrot.nil, treeAt_plug, treeAt_join, treeAt_join]
    simp only [treeAddr_join]
    refine ⟨hrot.path, hrot.yCell, ⟨hrot.xCell, ?_, hrot.middle⟩, ?_⟩
    · refine h1.congr fun a ha => ?_
      have hd1 := hdis1 a ha
      refine hrot.get a (fun hm => (hdis a hm).2.1 ha) ?_ hd1.1 hd1.2.1
      rintro rfl
      exact hx1 ha
    · refine h3.congr fun a ha => hrot.get a (fun hm => (hdis a hm).2.2.2.2 ha) ?_ ?_ ?_
      · rintro rfl
        exact hxy.2.2 ha
      · rintro rfl
        exact hy3 ha
      · exact fun ha2 => hdis2 a ha2 ha
  · rw [treeAddrs_rotate]
    exact h.nodup
  · rw [hrot.nil, treeAddrs_rotate]
    exact h.nil_notMem
  · rw [hrot.nil, hrot.get _ hnilp hnilx hnily hnil2]
    exact h.nilCell
  · intro q hq
    simp only [mem_treeAddrs_plug, mem_treeAddrs_join, not_or] at hq
    exact hrot.get q hq.1 hq.2.1 hq.2.2.2.1 hq.2.2.2.2.1

end Map

end KernelEventsTrace.Driver.Std
