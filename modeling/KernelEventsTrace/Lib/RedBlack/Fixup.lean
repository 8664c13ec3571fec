import KernelEventsTrace.Lib.RedBlack.Zipper

/-!
# `KernelEventsTrace.Lib.RedBlack.Fixup`: one round of the two fix-up loops

The bottom-up fix-up after an insertion and after a deletion, one round at a time, on a
path and the subtree in its hole.

* `InsertReady p t n`: everything is in order but the root of `t`, which is red and may
  have a red node above it. `InsertReady.recolor` moves the fault two nodes up,
  `InsertReady.inner` turns the inner case into the outer one, and `InsertReady.rotate`
  ends the loop.
* `DeleteReady p t n`: the paths through `t` miss one black node, or `t` is red and
  painting it black restores them. `DeleteReady.sibling_red` makes the sibling black,
  `DeleteReady.recolor` moves the missing black node one node up, `DeleteReady.inner` turns
  the inner case into the outer one, and `DeleteReady.rotate` ends the loop.

Each step names the new tree with `RbTree.join`, so one statement covers a case and its
mirror image.
-/

set_option autoImplicit false

namespace KernelEventsTrace.RedBlack

open RbPath RbTree

variable {α : Type}

/-! ### Insertion -/

/-- The state of the insertion loop: the subtree at the new node is valid and red, and the
path is valid. The only fault can be a red node above the hole. -/
structure InsertReady (p : RbPath α) (t : RbTree α) (n : Nat) : Prop where
  red : t.isRed = true
  valid : t.Valid n
  path : RbPath.Valid p n

/-- A new red node in the place of a leaf of a red-black tree starts the loop. -/
theorem InsertReady.of_leaf {p : RbPath α} {a : α} (h : (plug p nil).IsRedBlack) :
    InsertReady p (node true nil a nil) 0 := by
  obtain ⟨n, hp, hn, -⟩ := (isRedBlack_plug_iff p nil).mp h
  obtain rfl : n = 0 := hn
  exact ⟨rfl, ⟨rfl, rfl, rfl, rfl⟩, hp⟩

/-- The loop ends below a black node, and the root is painted black. -/
theorem InsertReady.done {p : RbPath α} {t : RbTree α} {n : Nat} (h : InsertReady p t n)
    (hp : isRed p = false) : ((plug p t).paint false).IsRedBlack := by
  cases p with
  | nil =>
    refine ⟨?_, n + 1, h.valid.paint_black_of_red h.red⟩
    cases t <;> rfl
  | cons f q =>
    have hrb : (plug (f :: q) t).IsRedBlack :=
      (isRedBlack_plug_iff _ _).mpr ⟨n, h.path, h.valid, fun _ => ⟨by simp, hp⟩⟩
    -- The root is black already, so painting it changes nothing.
    have hroot := hrb.1
    rw [← hroot, paint_isRed]
    exact hrb

/-- Above a red node on the path there is a black one. -/
theorem RbPath.Valid.of_red {f : Frame α} {p : RbPath α} {n : Nat}
    (h : RbPath.Valid (f :: p) n) (hf : f.isRed = true) :
    f.sib.Valid n ∧ f.sib.isRed = false ∧
      ∃ g q, p = g :: q ∧ g.isRed = false ∧ g.sib.Valid n ∧ RbPath.Valid q (n + 1) := by
  simp only [RbPath.Valid, hf, if_true] at h
  obtain ⟨hs, hsb, hne, hb, hp⟩ := h
  refine ⟨hs, hsb, ?_⟩
  cases p with
  | nil => exact absurd rfl hne
  | cons g q =>
    simp only [isRed_cons] at hb
    simp only [RbPath.Valid, hb, Bool.false_eq_true, if_false] at hp
    exact ⟨g, q, rfl, hb, hp.1, hp.2⟩

/-- The red uncle: parent and uncle become black, the grandparent becomes red, and the
loop goes on at the grandparent. -/
theorem InsertReady.recolor {f g : Frame α} {q : RbPath α} {t : RbTree α} {n : Nat}
    (h : InsertReady (f :: g :: q) t n) (hf : f.isRed = true) (hu : g.sib.isRed = true) :
    InsertReady q
      (join g.side true (join f.side false t f.elem f.sib) g.elem (g.sib.paint false))
      (n + 1) := by
  obtain ⟨hs, hsb, g', q', heq, hg, hgs, hq⟩ := h.path.of_red hf
  obtain ⟨rfl, rfl⟩ := List.cons.inj heq
  refine ⟨by simp, ?_, hq⟩
  -- The grandparent is black before, so both its subtrees gain the black node it loses.
  rw [valid_red, valid_black_succ]
  refine ⟨by simp, ?_, ⟨h.valid, hs⟩, hgs.paint_black_of_red hu⟩
  cases g.sib <;> rfl

/-- The inner case: after the rotation at the parent, the loop stands at the old parent,
with the old new node above it. -/
theorem InsertReady.inner {f g : Frame α} {q : RbPath α} {t1 t2 : RbTree α} {a : α} {n : Nat}
    (h : InsertReady (f :: g :: q) (join g.side true t1 a t2) n) (hf : f.isRed = true) :
    InsertReady (⟨g.side, true, a, t2⟩ :: g :: q) (join g.side true f.sib f.elem t1) n := by
  obtain ⟨hs, hsb, g', q', heq, hg, hgs, hq⟩ := h.path.of_red hf
  obtain ⟨rfl, rfl⟩ := List.cons.inj heq
  obtain ⟨h1, h2, hv1, hv2⟩ := (valid_red _ _ _ _ _).mp h.valid
  refine ⟨by simp, (valid_red _ _ _ _ _).mpr ⟨hsb, h1, hs, hv1⟩, ?_⟩
  simp [RbPath.Valid, hv2, h2, hg, hgs, hq]

/-- The outer case: after the rotation at the grandparent, the loop stands below a black
node, where it ends. -/
theorem InsertReady.rotate {f g : Frame α} {q : RbPath α} {t : RbTree α} {n : Nat}
    (h : InsertReady (f :: g :: q) t n) (hf : f.isRed = true) (hu : g.sib.isRed = false) :
    InsertReady (⟨g.side, false, f.elem, join g.side true f.sib g.elem g.sib⟩ :: q) t n := by
  obtain ⟨hs, hsb, g', q', heq, hg, hgs, hq⟩ := h.path.of_red hf
  obtain ⟨rfl, rfl⟩ := List.cons.inj heq
  refine ⟨h.red, h.valid, (valid_red _ _ _ _ _).mpr ⟨hsb, hu, hs, hgs⟩, ?_⟩
  simpa using hq

/-! ### Deletion -/

/-- The state of the deletion loop at a hole of a path of black height `n + 1`: a black
subtree is one black node short, and a red one is not once it is painted black. -/
structure DeleteReady (p : RbPath α) (t : RbTree α) (n : Nat) : Prop where
  path : RbPath.Valid p (n + 1)
  black : t.isRed = false → t.Valid n
  red : t.isRed = true → (t.paint false).Valid (n + 1)

/-- A valid subtree in the place of one that had one black node more starts the loop. -/
theorem DeleteReady.of_valid {p : RbPath α} {t : RbTree α} {n : Nat}
    (hp : RbPath.Valid p (n + 1)) (ht : t.Valid n) : DeleteReady p t n :=
  ⟨hp, fun _ => ht, fun hr => ht.paint_black_of_red hr⟩

/-- A red node with a leaf below it is spliced out without a trace. -/
theorem isRedBlack_splice {p : RbPath α} {d : Side} {a : α} {t : RbTree α}
    (h : (plug p (join d true nil a t)).IsRedBlack) : (plug p t).IsRedBlack := by
  obtain ⟨n, hp, ht, -⟩ := (isRedBlack_plug_iff _ _).mp h
  obtain ⟨-, hred, -, htv⟩ := (valid_red _ _ _ _ _).mp ht
  refine (isRedBlack_plug_iff _ _).mpr ⟨n, hp, htv, fun hr => ?_⟩
  rw [hred] at hr
  cases hr

/-- A black node with a leaf below it leaves one black node short. -/
theorem DeleteReady.of_splice {p : RbPath α} {d : Side} {a : α} {t : RbTree α}
    (h : (plug p (join d false nil a t)).IsRedBlack) : ∃ n, DeleteReady p t n := by
  obtain ⟨n, hp, ht, -⟩ := (isRedBlack_plug_iff _ _).mp h
  obtain ⟨k, rfl, -, htv⟩ := (valid_black _ _ _ _ _).mp ht
  exact ⟨k, DeleteReady.of_valid hp htv⟩

/-- Next to a leaf a red-black tree has nothing, or a red node with two leaves below a black
node. -/
theorem RbTree.IsRedBlack.sibling_of_leaf {p : RbPath α} {d : Side} {c : Bool} {a : α}
    {t : RbTree α}
    (h : (plug p (join d c nil a t)).IsRedBlack) :
    t = nil ∨ c = false ∧ ∃ b, t = .node true nil b nil := by
  obtain ⟨n, -, ht, -⟩ := (isRedBlack_plug_iff _ _).mp h
  -- The leaf fixes the black height of `t` to zero.
  have hzero : ∀ u : RbTree α, u.Valid 0 → u.isRed = false → u = nil := by
    intro u hu hb
    cases u with
    | nil => rfl
    | node cu l b r =>
      rw [isRed_node] at hb
      subst hb
      obtain ⟨k, hk, -⟩ := hu
      omega
  cases c with
  | true =>
    -- Below a red node `t` is black, so it is a leaf too.
    obtain ⟨-, hb, hn, ht⟩ := (valid_red _ _ _ _ _).mp ht
    rw [(valid_nil n).mp hn] at ht
    exact Or.inl (hzero t ht hb)
  | false =>
    obtain ⟨k, -, hn, ht⟩ := (valid_black _ _ _ _ _).mp ht
    rw [(valid_nil k).mp hn] at ht
    cases t with
    | nil => exact Or.inl rfl
    | node ct l b r =>
      cases ct with
      | false =>
        obtain ⟨j, hj, -⟩ := ht
        omega
      | true =>
        obtain ⟨hlb, hrb, hl, hr⟩ := ht
        exact Or.inr ⟨rfl, b, by rw [hzero l hl hlb, hzero r hr hrb]⟩

/-- A red-black tree stays red-black when a node of a path gets another element. -/
theorem isRedBlack_plug_congr {p q : RbPath α} {f g : Frame α} {t : RbTree α}
    (hc : f.isRed = g.isRed) (hs : f.sib = g.sib) (h : (plug (p ++ f :: q) t).IsRedBlack) :
    (plug (p ++ g :: q) t).IsRedBlack := by
  obtain ⟨n, hp, ht, hr⟩ := (isRedBlack_plug_iff _ _).mp h
  refine (isRedBlack_plug_iff _ _).mpr ⟨n, (valid_append_congr p q f g n hc hs).mp hp, ht, ?_⟩
  intro hred
  refine ⟨by simp, ?_⟩
  rw [← (hr hred).2]
  cases p with
  | nil => exact hc.symm
  | cons _ _ => rfl

/-- A red-black tree stays red-black when a node gets another element. -/
theorem isRedBlack_plug_elem {p : RbPath α} {d : Side} {c : Bool} {t u : RbTree α} {a : α} (b : α)
    (h : (plug p (join d c t a u)).IsRedBlack) : (plug p (join d c t b u)).IsRedBlack := by
  obtain ⟨n, hp, ht, hr⟩ := (isRedBlack_plug_iff _ _).mp h
  refine (isRedBlack_plug_iff _ _).mpr ⟨n, hp, ?_, by simpa using hr⟩
  cases c with
  | true => exact (valid_red ..).mpr ((valid_red ..).mp ht)
  | false => exact (valid_black ..).mpr ((valid_black ..).mp ht)

/-- The loop ends at a red node, which is painted black. -/
theorem DeleteReady.done {p : RbPath α} {t : RbTree α} {n : Nat} (h : DeleteReady p t n)
    (hr : t.isRed = true) : (plug p (t.paint false)).IsRedBlack := by
  refine (isRedBlack_plug_iff _ _).mpr ⟨n + 1, h.path, h.red hr, fun hb => ?_⟩
  cases t <;> simp at hb

/-- The loop ends at the root, which is painted black. -/
theorem DeleteReady.root {t : RbTree α} {n : Nat} (h : DeleteReady [] t n) :
    (t.paint false).IsRedBlack := by
  have hroot : (t.paint false).isRed = false := by cases t <;> rfl
  cases hr : t.isRed with
  | true => exact ⟨hroot, n + 1, h.red hr⟩
  | false =>
    rw [← hr, paint_isRed]
    exact ⟨hr, n, h.black hr⟩

/-- Inside the loop the sibling is a node, because its black height is positive. -/
theorem DeleteReady.exists_sibling {f : Frame α} {q : RbPath α} {t : RbTree α} {n : Nat}
    (h : DeleteReady (f :: q) t n) :
    ∃ c w1 a w2, f.sib = join f.side c w1 a w2 :=
  Valid.exists_node h.path.1 f.side

/-- The red sibling: the rotation at the parent puts a black sibling in its place. -/
theorem DeleteReady.sibling_red {f : Frame α} {q : RbPath α} {t w1 w2 : RbTree α} {a : α}
    {n : Nat} (h : DeleteReady (f :: q) t n) (hw : f.sib = join f.side true w1 a w2) :
    f.isRed = false ∧
      DeleteReady (⟨f.side, true, f.elem, w1⟩ :: ⟨f.side, false, a, w2⟩ :: q) t n := by
  obtain ⟨hs, hif⟩ := h.path
  -- A red node has no red child, so the parent is black.
  have hf : f.isRed = false := by
    cases hf : f.isRed with
    | false => rfl
    | true => simp [hf, hw] at hif
  simp only [hf, Bool.false_eq_true, if_false] at hif
  rw [hw, valid_red] at hs
  obtain ⟨h1, h2, hv1, hv2⟩ := hs
  refine ⟨hf, ?_, h.black, h.red⟩
  simp [RbPath.Valid, hv1, hv2, h1, hif]

/-- The black sibling with black children: it becomes red, and the loop goes on at the
parent. -/
theorem DeleteReady.recolor {f : Frame α} {q : RbPath α} {t w1 w2 : RbTree α} {a : α} {n : Nat}
    (h : DeleteReady (f :: q) t n) (ht : t.isRed = false)
    (hw : f.sib = join f.side false w1 a w2) (h1 : w1.isRed = false) (h2 : w2.isRed = false) :
    ∃ m, DeleteReady q (join f.side f.isRed t f.elem (join f.side true w1 a w2)) m := by
  obtain ⟨hs, hif⟩ := h.path
  rw [hw, valid_black_succ] at hs
  have hkids : (join f.side false t f.elem (join f.side true w1 a w2)).Valid (n + 1) := by
    rw [valid_black_succ, valid_red]
    exact ⟨h.black ht, h1, h2, hs.1, hs.2⟩
  -- Below a red parent the loop ends there, below a black one the fault moves up.
  cases hf : f.isRed with
  | true =>
    simp only [hf, if_true] at hif
    exact ⟨n, hif.2.2.2, by simp, fun _ => by simpa using hkids⟩
  | false =>
    simp only [hf, Bool.false_eq_true, if_false] at hif
    exact ⟨n + 1, hif, fun _ => hkids, by simp⟩

/-- The inner case: the rotation at the sibling puts a red node on its far side. -/
theorem DeleteReady.inner {f : Frame α} {q : RbPath α} {t n1 n2 w2 : RbTree α} {a b : α}
    {n : Nat} (h : DeleteReady (f :: q) t n)
    (hw : f.sib = join f.side false (join f.side true n1 b n2) a w2)
    (h2 : w2.isRed = false) :
    DeleteReady
      (⟨f.side, f.isRed, f.elem, join f.side false n1 b (join f.side true n2 a w2)⟩ :: q)
      t n := by
  obtain ⟨hs, hif⟩ := h.path
  rw [hw, valid_black_succ, valid_red] at hs
  obtain ⟨⟨hn1, hn2, hv1, hv2⟩, hv⟩ := hs
  refine ⟨⟨?_, ?_⟩, h.black, h.red⟩
  · rw [valid_black_succ, valid_red]
    exact ⟨hv1, hn2, h2, hv2, hv⟩
  · cases hf : f.isRed with
    | true =>
      simp only [hf, if_true] at hif ⊢
      exact ⟨by simp, hif.2⟩
    | false =>
      simp only [hf, Bool.false_eq_true, if_false] at hif ⊢
      exact hif

/-- The outer case: the rotation at the parent ends the loop. -/
theorem DeleteReady.rotate {f : Frame α} {q : RbPath α} {t w1 w2 : RbTree α} {a : α} {n : Nat}
    (h : DeleteReady (f :: q) t n) (ht : t.isRed = false)
    (hw : f.sib = join f.side false w1 a w2) (h2 : w2.isRed = true) :
    (plug q (join f.side f.isRed (join f.side false t f.elem w1) a
      (w2.paint false))).IsRedBlack := by
  obtain ⟨hs, hif⟩ := h.path
  rw [hw, valid_black_succ] at hs
  -- Both children of the new root have the black height that the hole asks for.
  have hnear : (join f.side false t f.elem w1).Valid (n + 1) :=
    (valid_black_succ _ _ _ _ _).mpr ⟨h.black ht, hs.1⟩
  have hfar : (w2.paint false).Valid (n + 1) := hs.2.paint_black_of_red h2
  have hfarb : (w2.paint false).isRed = false := by cases w2 <;> rfl
  refine (isRedBlack_plug_iff _ _).mpr ?_
  cases hf : f.isRed with
  | true =>
    simp only [hf, if_true] at hif
    exact ⟨n + 1, hif.2.2.2, (valid_red _ _ _ _ _).mpr ⟨by simp, hfarb, hnear, hfar⟩,
      fun _ => ⟨hif.2.1, hif.2.2.1⟩⟩
  | false =>
    simp only [hf, Bool.false_eq_true, if_false] at hif
    exact ⟨n + 2, hif, (valid_black_succ _ _ _ _ _).mpr ⟨hnear, hfar⟩, by simp⟩

end KernelEventsTrace.RedBlack
