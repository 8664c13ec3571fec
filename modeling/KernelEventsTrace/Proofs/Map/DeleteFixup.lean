import KernelEventsTrace.Proofs.Map.InsertFixup

/-!
# `KernelEventsTrace.Proofs.Map.DeleteFixup`: `DeleteFixup` restores the red-black tree

`DeleteFixup` walks up from a node `x` that may be the sentinel. It then reads the parent
of the sentinel, which `Transplant` wrote before. `Map.Focus m p t` is the state of the
walk: the map represents the tree `plug p t`, and the cell at the hole, the sentinel
included, has the node above it as its parent.

Each part of a round is one step of `KernelEventsTrace.RedBlack.DeleteReady`:
`deleteSibling_spec`, `deleteInner_spec` and `deleteOuter_spec`. A round ends the loop,
stops below a red node, or shortens the path (`deleteFixupStep_spec`).
-/

set_option autoImplicit false

namespace KernelEventsTrace.Driver.Std.Map

open KernelEventsTrace.RedBlack
open KernelEventsTrace.RedBlack.RbPath (plug plug_flip toList_plug_congr)

variable {K V : Type}

/-- The map represents `plug p t`, and the cell at the hole points back to the node above
it, even if that cell is the sentinel. -/
structure Focus (m : Map K V) (p : RbPath (Entry K V)) (t : RbTree (Entry K V)) : Prop where
  rep : m.Rep (plug p t)
  parent : ∃ n, m.node (treeAddr m.nil t) = .ok n ∧ n.isRed = t.isRed ∧
    n.parent = pathAddr m.nil p

/-- At a node the parent pointer is part of the representation. -/
theorem Focus.of_ne_nil {m : Map K V} {p : RbPath (Entry K V)} {t : RbTree (Entry K V)}
    (h : m.Rep (plug p t)) (ht : t ≠ .nil) : m.Focus p t := by
  obtain ⟨-, hcells⟩ := treeAt_plug.mp h.cells
  obtain ⟨n, hn, hpar, hred⟩ := hcells.get_root ht
  exact ⟨h, n, node_of_get hn, hred, hpar⟩

/-- A change above the hole that leaves the sentinel alone, and the node above the hole in
its place, keeps the focus. -/
theorem Focus.of_changes {m m' : Map K V} {p p' : RbPath (Entry K V)} {t : RbTree (Entry K V)}
    {S : List Ptr} (h : m.Focus p t) (h' : m'.Rep (plug p' t)) (hc : Changes m m' S)
    (hnil : m.nil ∉ S) (hp : pathAddr m.nil p' = pathAddr m.nil p) : m'.Focus p' t := by
  by_cases ht : t = .nil
  · subst ht
    obtain ⟨n, hn, hred, hpar⟩ := h.parent
    refine ⟨h', n, ?_, hred, ?_⟩
    · rw [treeAddr_nil, node_eq_ok, hc.nil, hc.get _ hnil]
      exact node_eq_ok.mp hn
    · rw [hpar, hc.nil, hp]
  · exact Focus.of_ne_nil h' ht

/-- The sibling of the hole, on the represented tree. -/
theorem Rep.sibling {m : Map K V} {f : Frame (Entry K V)} {q : RbPath (Entry K V)}
    {t : RbTree (Entry K V)} (h : m.Rep (plug (f :: q) t)) :
    m.Rep (plug (⟨f.side.flip, f.isRed, f.elem, t⟩ :: q) f.sib) := by
  rw [plug_flip]
  exact h

/-- The red sibling, on the represented tree: afterwards the sibling is black. -/
theorem deleteSibling_spec {m : Map K V} {f : Frame (Entry K V)} {q : RbPath (Entry K V)}
    {t : RbTree (Entry K V)} {n : Nat} (h : m.Focus (f :: q) t)
    (hr : DeleteReady (f :: q) t n) :
    ∃ m' f' q', deleteSibling f.side m (treeAddr m.nil t) = .ok (m', treeAddr m.nil f'.sib) ∧
      m'.Focus (f' :: q') t ∧ DeleteReady (f' :: q') t n ∧ f'.side = f.side ∧
      f'.sib.isRed = false ∧ (f'.isRed = true ∨ q' = q) ∧
      (plug (f' :: q') t).toList = (plug (f :: q) t).toList ∧
      Changes m m' (treeAddrs (plug (f :: q) t)) := by
  obtain ⟨nx, hx, -, hpar⟩ := h.parent
  have hfn := h.rep.node_frame
  obtain ⟨nw, hw, hwred⟩ := h.rep.sibling.node_treeAddr
  rw [pathAddr_cons] at hpar
  cases hred : f.sib.isRed with
  | false =>
    refine ⟨m, f, q, ?_, h, hr, rfl, hred, Or.inr rfl, rfl, Changes.refl _ _⟩
    unfold deleteSibling
    simp only [hx, bind, Except.bind, hpar, hfn, cell_child_flip, hw, hwred, hred,
      Bool.false_eq_true, if_false, pure, Except.pure]
  | true =>
    obtain ⟨w1, a, w2, hsib⟩ := RbTree.exists_join_of_isRed hred f.side
    obtain ⟨hf, hr'⟩ := hr.sibling_red hsib
    have hsibr := h.rep.sibling
    rw [hsib] at hsibr
    -- The sibling becomes black, the parent red, and the parent is rotated down.
    obtain ⟨m1, hm1, h1, hc1⟩ := setRed_spec false hsibr
    rw [plug_flip] at h1
    obtain ⟨m2, hm2, h2, hc2⟩ := setRed_spec (p := q) true h1
    obtain ⟨m3, hm3, h3, hc3⟩ := rotate_spec h2
    dsimp only at hm2 hm3
    have hmem : ∀ b, b ∈ treeAddrs (plug (f :: q) t) ↔
        b ∈ treeAddrs (plug q (RbTree.join f.side f.isRed t f.elem
          (RbTree.join f.side true w1 a w2))) := by
      intro b
      show b ∈ treeAddrs (plug q (RbTree.join _ _ _ _ f.sib)) ↔ _
      rw [hsib]
    have hc : Changes m m3 (treeAddrs (plug (f :: q) t)) := by
      refine (hc1.mono ?_).trans (hc2.trans hc3 ?_) ?_
      · intro b hb
        rw [plug_flip] at hb
        exact (hmem b).mpr hb
      · intro b hb
        simp only [mem_treeAddrs_plug, mem_treeAddrs_join] at hb ⊢
        exact hb
      · intro b hb
        rw [hmem]
        simp only [mem_treeAddrs_plug, mem_treeAddrs_join] at hb ⊢
        exact hb
    have hfocus : m3.Focus (⟨f.side, true, f.elem, w1⟩ :: ⟨f.side, false, a, w2⟩ :: q) t :=
      h.of_changes h3 hc h.rep.nil_notMem rfl
    obtain ⟨nx3, hx3, -, hpar3⟩ := hfocus.parent
    have hfn3 := hfocus.rep.node_frame
    rw [pathAddr_cons] at hpar3
    simp only [hc.nil] at hx3 hfn3
    refine ⟨m3, _, _, ?_, hfocus, hr', rfl, ?_, Or.inl rfl, ?_, hc⟩
    · have hwt : nw.isRed = true := hwred.trans hred
      rw [hsib, treeAddr_join] at hw
      unfold deleteSibling
      simp only [hx, bind, Except.bind, hpar, hfn, cell_child_flip, hsib, treeAddr_join, hw,
        hwt, if_true, hm1, hm2, hm3, hx3, hpar3, hfn3, pure, Except.pure]
    · exact ((RbTree.valid_red ..).mp (hsib ▸ hr.path.1)).1
    · show (plug q (RbTree.join _ _ (RbTree.join _ _ _ _ _) _ _)).toList =
        (plug q (RbTree.join _ _ _ _ f.sib)).toList
      rw [hsib]
      exact toList_plug_congr q (RbTree.toList_join_join ..)

/-- The inner case, on the represented tree: afterwards the far child of the sibling is red. -/
theorem deleteInner_spec {m : Map K V} {f : Frame (Entry K V)} {q : RbPath (Entry K V)}
    {t w1 w2 : RbTree (Entry K V)} {a : Entry K V} {n : Nat} (h : m.Focus (f :: q) t)
    (hr : DeleteReady (f :: q) t n) (hw : f.sib = RbTree.join f.side false w1 a w2)
    (hkids : w1.isRed = true ∨ w2.isRed = true) :
    ∃ m' v1 b v2, deleteInner f.side m (treeAddr m.nil t) a.addr = .ok (m', b.addr) ∧
      m'.Focus (⟨f.side, f.isRed, f.elem, RbTree.join f.side false v1 b v2⟩ :: q) t ∧
      DeleteReady (⟨f.side, f.isRed, f.elem, RbTree.join f.side false v1 b v2⟩ :: q) t n ∧
      v2.isRed = true ∧ (RbTree.join f.side false v1 b v2).toList = f.sib.toList ∧
      Changes m m' (treeAddrs (plug (f :: q) t)) := by
  obtain ⟨nx, hx, -, hpar⟩ := h.parent
  rw [pathAddr_cons] at hpar
  have hsibr := h.rep.sibling
  rw [hw] at hsibr
  have han := hsibr.node_join
  obtain ⟨n2, hn2, hn2red⟩ := Rep.node_treeAddr
    (p := ⟨f.side.flip, false, a, w1⟩ :: ⟨f.side.flip, f.isRed, f.elem, t⟩ :: q) (t := w2)
    (by rw [plug_flip]; exact hsibr)
  cases h2 : w2.isRed with
  | true =>
    have hn2t : n2.isRed = true := hn2red.trans h2
    have hfr : f = ⟨f.side, f.isRed, f.elem, RbTree.join f.side false w1 a w2⟩ := by rw [← hw]
    refine ⟨m, w1, a, w2, ?_, hfr ▸ h, hfr ▸ hr, h2, by rw [hw], Changes.refl _ _⟩
    unfold deleteInner
    simp only [han, bind, Except.bind, cell_child_flip, hn2, hn2t, Bool.true_eq_false, if_false,
      pure, Except.pure]
  | false =>
    have hn2f : n2.isRed = false := hn2red.trans h2
    have h1 : w1.isRed = true := by
      rcases hkids with h1 | h1
      · exact h1
      · rw [h2] at h1
        cases h1
    obtain ⟨v1, b, v2, rfl⟩ := RbTree.exists_join_of_isRed h1 f.side
    have hr' := hr.inner hw h2
    -- The near child becomes black, the sibling red, and the sibling is rotated down.
    obtain ⟨m1, hm1, h1, hc1⟩ := setRed_spec
      (p := ⟨f.side, false, a, w2⟩ :: ⟨f.side.flip, f.isRed, f.elem, t⟩ :: q) false hsibr
    obtain ⟨m2, hm2, h2, hc2⟩ := setRed_spec
      (p := ⟨f.side.flip, f.isRed, f.elem, t⟩ :: q) true h1
    have h2' : m2.Rep (plug (⟨f.side.flip, f.isRed, f.elem, t⟩ :: q)
        (RbTree.join f.side.flip true w2 a (RbTree.join f.side.flip false v2 b v1))) := by
      rw [RbTree.join_flip, RbTree.join_flip]
      exact h2
    obtain ⟨m3, hm3, h3, hc3⟩ := rotate_spec h2'
    rw [RbTree.join_flip, RbTree.join_flip, plug_flip] at h3
    dsimp only at hm2
    have hmem : ∀ e, e ∈ treeAddrs (plug (f :: q) t) ↔
        e ∈ treeAddrs (plug (⟨f.side.flip, f.isRed, f.elem, t⟩ :: q)
          (RbTree.join f.side false (RbTree.join f.side true v1 b v2) a w2)) := by
      intro e
      rw [plug_flip, ← hw]
    have hc : Changes m m3 (treeAddrs (plug (f :: q) t)) := by
      refine (hc1.mono ?_).trans (hc2.trans hc3 ?_) ?_
      · intro e he
        exact (hmem e).mpr he
      · intro e he
        simp only [RbPath.plug_cons, Frame.fill, mem_treeAddrs_plug, mem_treeAddrs_join] at he ⊢
        tauto
      · intro e he
        rw [hmem]
        simp only [RbPath.plug_cons, Frame.fill, mem_treeAddrs_plug, mem_treeAddrs_join] at he ⊢
        exact he
    have hfocus := h.of_changes h3 hc h.rep.nil_notMem rfl
    obtain ⟨nx3, hx3, -, hpar3⟩ := hfocus.parent
    have hfn3 := hfocus.rep.node_frame
    rw [pathAddr_cons] at hpar3
    simp only [hc.nil] at hx3 hfn3
    rw [treeAddr_join] at han
    refine ⟨m3, v1, b, RbTree.join f.side true v2 a w2, ?_, hfocus, hr', by simp, ?_, hc⟩
    · unfold deleteInner
      simp only [han, bind, Except.bind, cell_child_flip, hn2, hn2f, if_true, cell_child, hm1,
        hm2, hm3, hx3, hpar3, hfn3, treeAddr_join, pure, Except.pure]
    · rw [hw]
      exact (RbTree.toList_join_join ..).symm

/-- The outer case, on the represented tree. -/
theorem deleteOuter_spec {m : Map K V} {f : Frame (Entry K V)} {q : RbPath (Entry K V)}
    {t w1 w2 : RbTree (Entry K V)} {a : Entry K V} (h : m.Focus (f :: q) t)
    (hw : f.sib = RbTree.join f.side false w1 a w2) :
    ∃ m', deleteOuter f.side m (treeAddr m.nil t) a.addr = .ok m' ∧
      m'.Rep (plug q (RbTree.join f.side f.isRed (RbTree.join f.side false t f.elem w1) a
        (w2.paint false))) ∧
      Changes m m' (treeAddrs (plug (f :: q) t)) := by
  obtain ⟨nx, hx, -, hpar⟩ := h.parent
  rw [pathAddr_cons] at hpar
  have hfn := h.rep.node_frame
  have hsibr := h.rep.sibling
  rw [hw] at hsibr
  -- The sibling takes the colour of the parent.
  obtain ⟨m1, hm1, h1, hc1⟩ := setRed_spec f.isRed hsibr
  rw [plug_flip] at h1
  -- The parent becomes black.
  obtain ⟨m2, hm2, h2, hc2⟩ := setRed_spec (p := q) false h1
  -- The far child becomes black.
  have hfar : m2.Rep (plug (⟨f.side.flip, f.isRed, a, w1⟩ ::
      ⟨f.side.flip, false, f.elem, t⟩ :: q) w2) := by
    rw [plug_flip]
    show m2.Rep (plug q (RbTree.join f.side.flip false (RbTree.join f.side f.isRed w1 a w2) _ _))
    rw [RbTree.join_flip]
    exact h2
  have han := Rep.node_frame (f := ⟨f.side, f.isRed, a, w2⟩)
    (p := ⟨f.side.flip, false, f.elem, t⟩ :: q) (t := w1) (by rw [← plug_flip]; exact hfar)
  obtain ⟨m3, hm3, h3, hc3⟩ := setRed_paint_spec hfar
  rw [plug_flip] at h3
  have h3' : m3.Rep (plug q (RbTree.join f.side false t f.elem
      (RbTree.join f.side f.isRed w1 a (w2.paint false)))) := by
    rw [← RbTree.join_flip]
    exact h3
  -- The parent is rotated down.
  obtain ⟨m4, hm4, h4, hc4⟩ := rotate_spec h3'
  have hmem : ∀ e, e ∈ treeAddrs (plug (f :: q) t) ↔ e ∈ treeAddrs (plug q
      (RbTree.join f.side f.isRed t f.elem (RbTree.join f.side false w1 a w2))) := by
    intro e
    rw [← hw]
    rfl
  refine ⟨m4, ?_, h4, ?_⟩
  · dsimp only at hm2 han
    have hnil1 := hc1.nil
    have hnil2 := hc2.nil
    rw [hnil1] at hnil2
    rw [hnil2] at hm3 han
    unfold deleteOuter
    simp only [hx, bind, Except.bind, hpar, hfn, cell_isRed, hm1, hm2, han, cell_child_flip, hm3,
      hm4]
  · refine (hc1.mono ?_).trans (hc2.trans (hc3.trans hc4 ?_) ?_) ?_
    · intro e he
      rw [plug_flip] at he
      exact (hmem e).mpr he
    · intro e he
      simp only [RbPath.plug_cons, Frame.fill, mem_treeAddrs_plug, mem_treeAddrs_join,
        treeAddrs_paint] at he ⊢
      tauto
    · intro e he
      simp only [RbPath.plug_cons, Frame.fill, mem_treeAddrs_plug, mem_treeAddrs_join] at he ⊢
      tauto
    · intro e he
      rw [hmem]
      simp only [mem_treeAddrs_plug, mem_treeAddrs_join] at he ⊢
      exact he

/-- One round of the loop keeps `DeleteReady`. Afterwards `x` is the root, or red, or one
node further up. -/
theorem deleteFixupStep_spec {m : Map K V} {f : Frame (Entry K V)} {q : RbPath (Entry K V)}
    {t : RbTree (Entry K V)} {n : Nat} (h : m.Focus (f :: q) t)
    (hr : DeleteReady (f :: q) t n) (ht : t.isRed = false) :
    ∃ m' p' t' n', deleteFixupStep f.side m (treeAddr m.nil t) = .ok (m', treeAddr m.nil t') ∧
      m'.Focus p' t' ∧ DeleteReady p' t' n' ∧ (p' = [] ∨ t'.isRed = true ∨ p' = q) ∧
      (plug p' t').toList = (plug (f :: q) t).toList ∧
      Changes m m' (treeAddrs (plug (f :: q) t)) := by
  obtain ⟨m1, g, r, hm1, h1, hr1, hside, hblack, hshape, hl1, hc1⟩ := deleteSibling_spec h hr
  obtain ⟨c, w1, a, w2, hw⟩ := hr1.exists_sibling
  obtain rfl : c = false := by
    rw [hw] at hblack
    simpa using hblack
  have hsibr := h1.rep.sibling
  rw [hw] at hsibr
  have han := hsibr.node_join
  obtain ⟨n1, hn1, hn1red⟩ := Rep.node_treeAddr
    (p := ⟨g.side, false, a, w2⟩ :: ⟨g.side.flip, g.isRed, g.elem, t⟩ :: r) (t := w1) hsibr
  obtain ⟨n2, hn2, hn2red⟩ := Rep.node_treeAddr
    (p := ⟨g.side.flip, false, a, w1⟩ :: ⟨g.side.flip, g.isRed, g.elem, t⟩ :: r) (t := w2)
    (by rw [plug_flip]; exact hsibr)
  rw [hw, treeAddr_join] at hm1
  rw [hc1.nil] at hn1 hn2 han
  have hstep : deleteFixupStep f.side m (treeAddr m.nil t) =
      if w1.isRed = false ∧ w2.isRed = false then do
        let m ← m1.setRed a.addr true
        return (m, (← m.node (treeAddr m1.nil t)).parent)
      else do
        let inner ← deleteInner g.side m1 (treeAddr m1.nil t) a.addr
        let m ← deleteOuter g.side inner.1 (treeAddr m1.nil t) inner.2
        return (m, m.root) := by
    unfold deleteFixupStep
    rw [hside, hc1.nil]
    rw [hside] at han
    simp only [hm1, bind, Except.bind, han, cell_child, cell_child_flip, hn1, hn2, hn1red, hn2red]
  rw [hstep]
  by_cases hkids : w1.isRed = false ∧ w2.isRed = false
  · -- The sibling becomes red, and `x` goes up to its parent.
    rw [if_pos hkids]
    obtain ⟨m2, hm2, h2, hc2⟩ := setRed_spec true hsibr
    rw [plug_flip] at h2
    have hc : Changes m1 m2 (treeAddrs (plug (g :: r) t)) := hc2.mono fun e he => by
      rw [plug_flip, ← hw] at he
      exact he
    have hfocus := h1.of_changes h2 hc h1.rep.nil_notMem rfl
    obtain ⟨nx, hx, -, hpar⟩ := hfocus.parent
    rw [hc.nil] at hx
    obtain ⟨n', hr2⟩ := hr1.recolor ht hw hkids.1 hkids.2
    refine ⟨m2, r, RbTree.join g.side g.isRed t g.elem (RbTree.join g.side true w1 a w2), n', ?_,
      Focus.of_ne_nil h2 ?_, hr2, ?_, ?_, ?_⟩
    · simp only [hm2, bind, Except.bind, hx, hpar, pathAddr_cons, treeAddr_join, pure, Except.pure]
    · cases g.side <;> simp [RbTree.join]
    · rcases hshape with hred | heq
      · exact Or.inr (Or.inl (by simpa using hred))
      · exact Or.inr (Or.inr heq)
    · rw [← hl1]
      refine toList_plug_congr r (RbTree.toList_join_congr _ _ _ _ rfl ?_)
      rw [hw]
      exact RbTree.toList_join_congr _ _ _ _ rfl rfl
    · refine hc1.trans hc fun e he => ?_
      rw [treeAddrs, hl1] at he
      exact he
  · -- The rotations end the loop at the root.
    rw [if_neg hkids]
    have hor : w1.isRed = true ∨ w2.isRed = true := by
      cases h1 : w1.isRed <;> cases h2 : w2.isRed <;> simp [h1, h2] at hkids ⊢
    obtain ⟨m2, v1, b, v2, hm2, h2, hr2, hv2, hl2, hc2⟩ := deleteInner_spec h1 hr1 hw hor
    obtain ⟨m3, hm3, h3, hc3⟩ := deleteOuter_spec h2 rfl
    rw [hc2.nil] at hm3
    have hrb := hr2.rotate ht rfl hv2
    obtain ⟨-, k, hk⟩ := hrb
    have hne := RbPath.plug_ne_nil (p := r) (RbTree.join_ne_nil g.side g.isRed
      (RbTree.join g.side false t g.elem v1) b (v2.paint false))
    refine ⟨m3, [], _, k, ?_, Focus.of_ne_nil (p := []) h3 hne,
      DeleteReady.of_valid trivial hk, Or.inl rfl, ?_, ?_⟩
    · have hroot := h3.root
      rw [hc3.nil, hc2.nil, hc1.nil] at hroot
      simp only [hm2, bind, Except.bind, hm3, pure, Except.pure, hroot]
    · rw [← hl1]
      refine toList_plug_congr r ?_
      calc (RbTree.join g.side g.isRed (RbTree.join g.side false t g.elem v1) b
              (v2.paint false)).toList
          = (RbTree.join g.side g.isRed (RbTree.join g.side false t g.elem v1) b v2).toList :=
            RbTree.toList_join_congr _ _ _ _ rfl (RbTree.toList_paint _ _)
        _ = (RbTree.join g.side g.isRed t g.elem (RbTree.join g.side false v1 b v2)).toList :=
            RbTree.toList_join_join ..
        _ = (g.fill t).toList := RbTree.toList_join_congr _ _ _ _ rfl hl2
    · refine hc1.trans (hc2.trans hc3 fun e he => ?_) fun e he => ?_
      · have hl : (plug (⟨g.side, g.isRed, g.elem, RbTree.join g.side false v1 b v2⟩ :: r) t).toList
            = (plug (g :: r) t).toList :=
          toList_plug_congr r (RbTree.toList_join_congr _ _ _ _ rfl hl2)
        rw [treeAddrs, hl] at he
        exact he
      · rw [treeAddrs, hl1] at he
        exact he

/-- The root lies on the path. -/
theorem Rep.root_ne {m : Map K V} {f : Frame (Entry K V)} {q : RbPath (Entry K V)}
    {t : RbTree (Entry K V)} (h : m.Rep (plug (f :: q) t)) : treeAddr m.nil t ≠ m.root := by
  have hmem : m.root ∈ pathAddrs (f :: q) := by
    rw [h.root]
    clear h
    induction q generalizing f t with
    | nil =>
      show treeAddr m.nil (RbTree.join _ _ _ _ _) ∈ _
      simp
    | cons g q ih =>
      have := ih (f := g) (t := f.fill t)
      rw [pathAddrs_cons]
      simp only [List.mem_append]
      exact Or.inr this
  have hnil : m.root ≠ m.nil := by
    intro hroot
    rw [hroot] at hmem
    exact h.nil_notMem (mem_treeAddrs_plug.mpr (Or.inl hmem))
  obtain ⟨-, -, hdis⟩ := nodup_treeAddrs_plug.mp h.nodup
  exact (ne_treeAddr hnil (hdis _ hmem)).symm

/-- The loop of `DeleteFixup` ends, within as many rounds as the path above `x` is long, and
at once if `x` is red. It keeps the entries, and all that is left to do is to paint `x`
black. -/
theorem deleteFixupLoop_spec (fuel : Nat) :
    ∀ {m : Map K V} {p : RbPath (Entry K V)} {t : RbTree (Entry K V)} {n : Nat},
      0 < fuel → (p.length < fuel ∨ t.isRed = true) → m.Focus p t → DeleteReady p t n →
      ∃ m' p' t', deleteFixupLoop fuel m (treeAddr m.nil t) = .ok (m', treeAddr m.nil t') ∧
        m'.Rep (plug p' t') ∧ (plug p' (t'.paint false)).IsRedBlack ∧
        (t.isRed = true → p' = p ∧ t' = t) ∧
        (plug p' t').toList = (plug p t).toList ∧ Changes m m' (treeAddrs (plug p t)) := by
  induction fuel with
  | zero => intro m p t n hpos; omega
  | succ fuel ih =>
    intro m p t n _ hlt h hr
    obtain ⟨nx, hx, hxred, hpar⟩ := h.parent
    unfold deleteFixupLoop
    cases p with
    | nil =>
      refine ⟨m, [], t, ?_, h.rep, hr.root, fun _ => ⟨rfl, rfl⟩, rfl, Changes.refl _ _⟩
      have hroot : ¬ treeAddr m.nil t ≠ m.root := fun hne => hne h.rep.root.symm
      simp only [hx, bind, Except.bind, hroot, false_and, if_false, pure, Except.pure]
    | cons f q =>
      have hroot := h.rep.root_ne
      have hfn := h.rep.node_frame
      cases ht : t.isRed with
      | true =>
        refine ⟨m, f :: q, t, ?_, h.rep, hr.done ht, fun _ => ⟨rfl, rfl⟩, rfl,
          Changes.refl _ _⟩
        have hxt : nx.isRed = true := hxred.trans ht
        simp only [hx, bind, Except.bind, hxt, Bool.true_eq_false, and_false, if_false, pure,
          Except.pure]
      | false =>
        have hxf : nx.isRed = false := hxred.trans ht
        obtain ⟨m1, p', t', n', hm1, h1, hr1, hshape, hl1, hc1⟩ := deleteFixupStep_spec h hr ht
        have hlen : q.length < fuel := by
          rcases hlt with hlt | hlt
          · simp only [List.length_cons] at hlt
            omega
          · rw [ht] at hlt
            cases hlt
        have hnext : p'.length < fuel ∨ t'.isRed = true := by
          rcases hshape with rfl | hred | rfl
          · left
            simp only [List.length_nil]
            omega
          · exact Or.inr hred
          · exact Or.inl hlen
        obtain ⟨m2, p2, t2, hm2, h2, hrb, -, hl2, hc2⟩ := ih (by omega) hnext h1 hr1
        refine ⟨m2, p2, t2, ?_, h2, hrb, by simp, hl2.trans hl1, hc1.trans hc2 fun a ha => ?_⟩
        · -- The sibling is a node, so the test finds the side of `x`.
          obtain ⟨c, w1, a, w2, hw⟩ := hr.exists_sibling
          have hsib : f.sib ≠ .nil := by
            rw [hw]
            cases f.side <;> simp [RbTree.join]
          have hside : treeAddr m.nil t = (cell f.side f.isRed f.elem (pathAddr m.nil q)
              (treeAddr m.nil t) (treeAddr m.nil f.sib)).left ↔ f.side = .left :=
            h.rep.child_iff (Or.inr hsib) .left
          rw [hc1.nil] at hm2
          rw [pathAddr_cons] at hpar
          simp only [hx, bind, Except.bind, hxf, hroot, ne_eq, not_false_eq_true, and_self, if_true,
            hpar, hfn]
          by_cases hs : f.side = .left
          · rw [if_pos (hside.mpr hs)]
            rw [hs] at hm1
            simp only [hm1, hm2]
          · rw [if_neg fun heq => hs (hside.mp heq)]
            rw [Side.eq_right hs] at hm1
            simp only [hm1, hm2]
        · rw [treeAddrs, hl1] at ha
          exact ha

/-- `DeleteFixup` turns a represented tree that is one black node short at the hole into a
red-black tree with the same entries. A red `x` is only painted. -/
theorem deleteFixup_spec {m : Map K V} {p : RbPath (Entry K V)} {t : RbTree (Entry K V)} {n : Nat}
    (h : m.Focus p t) (hr : DeleteReady p t n)
    (hsize : (plug p t).toList.length ≤ m.size) :
    ∃ m' t', m.deleteFixup (treeAddr m.nil t) = .ok m' ∧ m'.Rep t' ∧ t'.IsRedBlack ∧
      (t.isRed = true → t' = plug p (t.paint false)) ∧
      t'.toList = (plug p t).toList ∧ Changes m m' (treeAddrs (plug p t)) := by
  have hlen : p.length < m.fuel := by
    have := RbPath.length_le p t
    unfold fuel
    omega
  obtain ⟨m1, p1, t1, hm1, h1, hrb, hred, hl1, hc1⟩ :=
    deleteFixupLoop_spec m.fuel (by unfold fuel; omega) (Or.inl hlen) h hr
  obtain ⟨m2, hm2, h2, hc2⟩ := setRed_paint_spec h1
  rw [hc1.nil] at hm2
  refine ⟨m2, plug p1 (t1.paint false), ?_, h2, hrb, ?_, ?_, hc1.trans hc2 fun a ha => ?_⟩
  · unfold deleteFixup
    simp only [hm1, bind, Except.bind, hm2]
  · intro ht
    obtain ⟨rfl, rfl⟩ := hred ht
    rfl
  · rw [← hl1]
    exact toList_plug_congr p1 (RbTree.toList_paint _ _)
  · rw [treeAddrs, hl1] at ha
    exact ha

end KernelEventsTrace.Driver.Std.Map
