import KernelEventsTrace.Lib.RedBlack.Fixup
import KernelEventsTrace.Proofs.Map.Rotate

/-!
# `KernelEventsTrace.Proofs.Map.InsertFixup`: `InsertFixup` restores the red-black tree

Each part of a round of `InsertFixup` is one step of `KernelEventsTrace.RedBlack.InsertReady` on the
represented tree: `insertRecolor_spec`, `insertInner_spec` and `insertOuter_spec`.
`insertFixupStep_spec` puts them together: a round keeps `InsertReady` and shortens the path
above `z`. So the loop ends, within as many rounds as the path is long
(`insertFixupLoop_spec`), and `insertFixup_spec` follows by painting the root.
-/

set_option autoImplicit false

namespace KernelEventsTrace.Driver.Std.Map

open KernelEventsTrace.RedBlack
open KernelEventsTrace.RedBlack.RbPath (plug plug_flip toList_plug_congr)

variable {K V : Type}

/-- The red uncle, on the represented tree. -/
theorem insertRecolor_spec {m : Map K V} {f g : Frame (Entry K V)} {q : RbPath (Entry K V)}
    {t : RbTree (Entry K V)} (h : m.Rep (plug (f :: g :: q) t)) (ht : t.isRed = true) :
    ∃ m', m.insertRecolor (treeAddr m.nil t) (treeAddr m.nil g.sib)
        = .ok (m', g.elem.addr) ∧
      m'.Rep (plug q (RbTree.join g.side true (RbTree.join f.side false t f.elem f.sib) g.elem
        (g.sib.paint false))) ∧
      Changes m m' (treeAddrs (plug (f :: g :: q) t)) := by
  obtain ⟨n, hz, hpar⟩ := h.node_red ht
  -- The parent becomes black.
  obtain ⟨m1, hm1, h1, hc1⟩ := setRed_spec (p := g :: q) false h
  have hf1 := Rep.node_frame (f := ⟨f.side, false, f.elem, f.sib⟩) (p := g :: q) (t := t) h1
  -- The uncle becomes black.
  have hu1 : m1.Rep (plug (⟨g.side.flip, g.isRed, g.elem,
      RbTree.join f.side false t f.elem f.sib⟩ :: q) g.sib) := by
    rw [plug_flip]
    exact h1
  obtain ⟨m2, hm2, h2, hc2⟩ := setRed_paint_spec hu1
  rw [plug_flip] at h2
  have hf2 := Rep.node_frame (f := ⟨f.side, false, f.elem, f.sib⟩)
    (p := ⟨g.side, g.isRed, g.elem, g.sib.paint false⟩ :: q) (t := t) h2
  -- The grandparent becomes red.
  obtain ⟨m3, hm3, h3, hc3⟩ := setRed_spec (p := q) true h2
  refine ⟨m3, ?_, h3, ?_⟩
  · rw [hc1.nil] at hm2
    unfold insertRecolor
    simp only [hz, bind, Except.bind, hpar, pathAddr_cons, hm1, hm2, hf2, cell_parent, hm3, pure,
      Except.pure]
  · refine (hc1.trans hc2 fun q hq => ?_).trans hc3 fun q hq => ?_
    · rw [plug_flip] at hq
      simp only [RbPath.plug_cons, Frame.fill, mem_treeAddrs_plug, mem_treeAddrs_join] at hq ⊢
      exact hq
    · simp only [RbPath.plug_cons, Frame.fill, mem_treeAddrs_plug, mem_treeAddrs_join,
        treeAddrs_paint] at hq ⊢
      exact hq

/-- The inner case, on the represented tree: with or without the rotation, `z` ends on the
outer side. -/
theorem insertInner_spec {m : Map K V} {f g : Frame (Entry K V)} {q : RbPath (Entry K V)}
    {t : RbTree (Entry K V)} {n : Nat} (h : m.Rep (plug (f :: g :: q) t))
    (hr : InsertReady (f :: g :: q) t n) (hf : f.isRed = true) :
    ∃ m' f' t', insertInner g.side m (treeAddr m.nil t) = .ok (m', treeAddr m.nil t') ∧
      m'.Rep (plug (f' :: g :: q) t') ∧ InsertReady (f' :: g :: q) t' n ∧
      f'.isRed = true ∧ f'.side = g.side ∧
      (plug (f' :: g :: q) t').toList = (plug (f :: g :: q) t).toList ∧
      Changes m m' (treeAddrs (plug (f :: g :: q) t)) := by
  obtain ⟨nz, hz, hpar⟩ := h.node_red hr.red
  have hne : t ≠ .nil := by
    rintro rfl
    simpa using hr.red
  have hfn := h.node_frame
  have hside := h.child_iff (Or.inl hne) g.side.flip
  simp only [pathAddr_cons] at hpar hfn hside
  by_cases hin : f.side = g.side.flip
  · have hchild := hside.mpr hin
    obtain ⟨t1, a, t2, rfl⟩ := RbTree.exists_join_of_isRed hr.red g.side
    have htree : plug (f :: g :: q) (RbTree.join g.side true t1 a t2) =
        plug (g :: q) (RbTree.join g.side true f.sib f.elem (RbTree.join g.side true t1 a t2)) := by
      show plug (g :: q) (RbTree.join f.side f.isRed _ f.elem f.sib) = _
      rw [hin, hf, RbTree.join_flip]
    rw [htree] at h ⊢
    obtain ⟨m1, hm1, h1, hc1⟩ := rotate_spec h
    refine ⟨m1, ⟨g.side, true, a, t2⟩, RbTree.join g.side true f.sib f.elem t1, ?_, h1,
      hr.inner hf, rfl, rfl, toList_plug_congr (g :: q) (RbTree.toList_join_join ..), hc1⟩
    unfold insertInner
    simp only [hz, bind, Except.bind, hpar, hfn, if_pos hchild, hm1, pure, Except.pure]
    rw [treeAddr_join]
  · have hout : f.side = g.side := (Side.eq_or_eq_flip _ _).resolve_right hin
    refine ⟨m, f, t, ?_, h, hr, hf, hout, rfl, Changes.refl _ _⟩
    unfold insertInner
    simp only [hz, bind, Except.bind, hpar, hfn, if_neg fun heq => hin (hside.mp heq), pure,
      Except.pure]

/-- The outer case, on the represented tree. -/
theorem insertOuter_spec {m : Map K V} {f g : Frame (Entry K V)} {q : RbPath (Entry K V)}
    {t : RbTree (Entry K V)} (h : m.Rep (plug (f :: g :: q) t)) (ht : t.isRed = true)
    (hside : f.side = g.side) :
    ∃ m', insertOuter g.side m (treeAddr m.nil t) = .ok m' ∧
      m'.Rep (plug (⟨g.side, false, f.elem, RbTree.join g.side true f.sib g.elem g.sib⟩ :: q) t) ∧
      Changes m m' (treeAddrs (plug (f :: g :: q) t)) := by
  obtain ⟨n, hz, hpar⟩ := h.node_red ht
  obtain ⟨m1, hm1, h1, hc1⟩ := setRed_spec (p := g :: q) false h
  have hf1 := Rep.node_frame (f := ⟨f.side, false, f.elem, f.sib⟩) (p := g :: q) (t := t) h1
  obtain ⟨m2, hm2, h2, hc2⟩ := setRed_spec (p := q) true h1
  -- Seen from the other side, the grandparent goes down and the parent goes up.
  have h2' : m2.Rep (plug q (RbTree.join g.side.flip true g.sib g.elem
      (RbTree.join g.side.flip false f.sib f.elem t))) := by
    rw [RbTree.join_flip, RbTree.join_flip, ← hside]
    rw [← hside] at h2
    exact h2
  obtain ⟨m3, hm3, h3, hc3⟩ := rotate_spec h2'
  rw [RbTree.join_flip, RbTree.join_flip] at h3
  refine ⟨m3, ?_, h3, ?_⟩
  · unfold insertOuter
    simp only [hz, bind, Except.bind, hpar, pathAddr_cons, hm1, hf1, cell_parent, hm2, hm3]
  · refine (hc1.trans hc2 fun a ha => ?_).trans hc3 fun a ha => ?_
    · simp only [RbPath.plug_cons, Frame.fill, mem_treeAddrs_plug, mem_treeAddrs_join] at ha ⊢
      exact ha
    · simp only [RbPath.plug_cons, Frame.fill, mem_treeAddrs_plug, mem_treeAddrs_join] at ha ⊢
      tauto

/-- One round of the loop keeps `InsertReady` and shortens the path above `z`. -/
theorem insertFixupStep_spec {m : Map K V} {f g : Frame (Entry K V)} {q : RbPath (Entry K V)}
    {t : RbTree (Entry K V)} {n : Nat} (h : m.Rep (plug (f :: g :: q) t))
    (hr : InsertReady (f :: g :: q) t n) (hf : f.isRed = true) :
    ∃ m' p' t' n', insertFixupStep g.side m (treeAddr m.nil t) = .ok (m', treeAddr m.nil t') ∧
      m'.Rep (plug p' t') ∧ InsertReady p' t' n' ∧ p'.length < (f :: g :: q).length ∧
      (plug p' t').toList = (plug (f :: g :: q) t).toList ∧
      Changes m m' (treeAddrs (plug (f :: g :: q) t)) := by
  obtain ⟨nz, hz, hpar⟩ := h.node_red hr.red
  have hfn := h.node_frame
  have hgn := Rep.node_frame (f := g) (p := q) (t := f.fill t) h
  have hu : m.Rep (plug (⟨g.side.flip, g.isRed, g.elem, f.fill t⟩ :: q) g.sib) := by
    rw [plug_flip]
    exact h
  obtain ⟨ny, hy, hyred⟩ := hu.node_treeAddr
  have hstep : insertFixupStep g.side m (treeAddr m.nil t) =
      if ny.isRed then m.insertRecolor (treeAddr m.nil t) (treeAddr m.nil g.sib)
      else do
        let inner ← insertInner g.side m (treeAddr m.nil t)
        let m ← insertOuter g.side inner.1 inner.2
        return (m, inner.2) := by
    simp only [insertFixupStep, hz, bind, Except.bind, hpar, pathAddr_cons, hfn, cell_parent, hgn,
      cell_child_flip, hy]
  rw [hstep]
  cases hred : g.sib.isRed with
  | true =>
    obtain ⟨m', hm', h', hc'⟩ := insertRecolor_spec h hr.red
    refine ⟨m', q, _, n + 1, ?_, h', hr.recolor hf hred, by simp only [List.length_cons]; omega,
      ?_, hc'⟩
    · rw [if_pos (by rw [hyred, hred]), hm', treeAddr_join]
    · exact toList_plug_congr q (RbTree.toList_join_congr _ _ _ _
        (RbTree.toList_join_congr _ _ _ _ rfl rfl) (RbTree.toList_paint _ _))
  | false =>
    obtain ⟨m1, f', t', hm1, h1, hr1, hf1, hside, hl1, hc1⟩ := insertInner_spec h hr hf
    obtain ⟨m2, hm2, h2, hc2⟩ := insertOuter_spec h1 hr1.red hside
    rw [hc1.nil] at hm2
    refine ⟨m2, _, t', n, ?_, h2, hr1.rotate hf1 hred, by simp, ?_, hc1.trans hc2 fun a ha => ?_⟩
    · rw [if_neg (by rw [hyred, hred]; simp)]
      simp only [hm1, bind, Except.bind, hm2, pure, Except.pure]
    · rw [← hl1]
      show (plug q (RbTree.join _ _ t' _ (RbTree.join _ _ _ _ _))).toList =
        (plug q (RbTree.join _ _ (RbTree.join _ _ t' _ _) _ _)).toList
      rw [hside]
      exact toList_plug_congr q (RbTree.toList_join_join ..).symm
    · rw [treeAddrs, hl1] at ha
      exact ha

/-- The loop of `InsertFixup` ends, within as many rounds as the path above `z` is long. It
keeps the entries, and all that is left to do is to paint the root. -/
theorem insertFixupLoop_spec (fuel : Nat) :
    ∀ {m : Map K V} {p : RbPath (Entry K V)} {t : RbTree (Entry K V)} {n : Nat},
      p.length < fuel → m.Rep (plug p t) → InsertReady p t n →
      ∃ m' t', insertFixupLoop fuel m (treeAddr m.nil t) = .ok m' ∧ m'.Rep t' ∧
        (t'.paint false).IsRedBlack ∧ t'.toList = (plug p t).toList ∧
        Changes m m' (treeAddrs (plug p t)) := by
  induction fuel with
  | zero => intro m p t n hlt; omega
  | succ fuel ih =>
    intro m p t n hlt h hr
    obtain ⟨nz, hz, hpar⟩ := h.node_red hr.red
    unfold insertFixupLoop
    cases p with
    | nil =>
      -- The parent of the root is the black sentinel.
      obtain ⟨nn, hnn, hblack, -, -⟩ := h.nilCell
      refine ⟨m, t, ?_, h, hr.done rfl, rfl, Changes.refl _ _⟩
      simp only [hz, bind, Except.bind, hpar, pathAddr_nil, node_of_get hnn, hblack,
        Bool.false_eq_true, if_false, pure, Except.pure]
    | cons f q =>
      have hfn := h.node_frame
      simp only [hz, bind, Except.bind, hpar, pathAddr_cons, hfn, cell_isRed, cell_parent]
      cases hf : f.isRed with
      | false =>
        refine ⟨m, plug (f :: q) t, ?_, h, hr.done (by simpa using hf), rfl, Changes.refl _ _⟩
        simp only [Bool.false_eq_true, if_false, pure, Except.pure]
      | true =>
        obtain ⟨-, -, g, q, rfl, -, -, -⟩ := hr.path.of_red hf
        have hgn := Rep.node_frame (f := g) (p := q) (t := f.fill t) h
        have hfill : treeAddr m.nil (f.fill t) = f.elem.addr := treeAddr_join ..
        have hside : f.elem.addr = (cell g.side g.isRed g.elem (pathAddr m.nil q) f.elem.addr
            (treeAddr m.nil g.sib)).left ↔ g.side = .left := by
          rw [← hfill]
          exact Rep.child_iff (f := g) (p := q) h
            (Or.inl (by unfold Frame.fill; cases f.side <;> simp [RbTree.join])) .left
        rw [hfill] at hgn
        obtain ⟨m1, p', t', n', hm1, h1, hr1, hlen, hl1, hc1⟩ := insertFixupStep_spec h hr hf
        obtain ⟨m2, t2, hm2, h2, hrb, hl2, hc2⟩ :=
          ih (by simp only [List.length_cons] at *; omega) h1 hr1
        refine ⟨m2, t2, ?_, h2, hrb, hl2.trans hl1, hc1.trans hc2 fun a ha => ?_⟩
        · rw [hc1.nil] at hm2
          simp only [if_true, pathAddr_cons, hgn]
          by_cases hs : g.side = .left
          · rw [hs] at hm1
            rw [if_pos (hside.mpr hs)]
            simp only [hm1, hm2]
          · rw [Side.eq_right hs] at hm1
            rw [if_neg fun heq => hs (hside.mp heq)]
            simp only [hm1, hm2]
        · rw [treeAddrs, hl1] at ha
          exact ha

/-- `InsertFixup` turns a represented tree with a fresh red node into a red-black tree with
the same entries. -/
theorem insertFixup_spec {m : Map K V} {p : RbPath (Entry K V)} {t : RbTree (Entry K V)} {n : Nat}
    (h : m.Rep (plug p t)) (hr : InsertReady p t n)
    (hsize : (plug p t).toList.length ≤ m.size + 1) :
    ∃ m' t', m.insertFixup (treeAddr m.nil t) = .ok m' ∧ m'.Rep t' ∧ t'.IsRedBlack ∧
      t'.toList = (plug p t).toList ∧ Changes m m' (treeAddrs (plug p t)) := by
  have hlen : p.length < m.fuel := by
    have := RbPath.length_le p t
    unfold fuel
    omega
  obtain ⟨m1, t1, hm1, h1, hrb, hl1, hc1⟩ := insertFixupLoop_spec m.fuel hlen h hr
  obtain ⟨m2, hm2, h2, hc2⟩ := setRed_paint_spec (p := []) h1
  refine ⟨m2, t1.paint false, ?_, h2, hrb, by simpa using hl1, hc1.trans hc2 fun a ha => ?_⟩
  · unfold insertFixup
    simp only [hm1, bind, Except.bind]
    rw [h1.root]
    exact hm2
  · rw [RbPath.plug_nil, treeAddrs, hl1] at ha
    exact ha

end KernelEventsTrace.Driver.Std.Map
