import KernelEventsTrace.Driver.Std.MapIterator
import KernelEventsTrace.Proofs.Map.Invariant

/-!
# `KernelEventsTrace.Proofs.Map.Search`: the walks that only read

`Minimum`, `Maximum`, `Successor`, `Predecessor` and the search loop follow links through
the represented tree. Each walk is described by where it ends.

* `extremeLoop_spec`: the outermost node on one side of a subtree.
* `climbLoop_spec`: the first node above that has the walk on its other side.
* `neighbour_spec`: `Successor` and `Predecessor` go to the next entry on their side.
* `increment_spec`, `decrement_spec`: `++it` and `--it` go to the next entry in the in-order
  sequence and to the one in front.
* `searchLoop_spec`: a search ends at a node with an equivalent key, or at the leaf between
  the smaller and the greater keys. It takes at most as many rounds as the tree is high.
-/

set_option autoImplicit false

namespace KernelEventsTrace.Driver.Std.Map

open KernelEventsTrace.RedBlack
open KernelEventsTrace.RedBlack.RbPath (plug before after beyond)
open KernelEventsTrace.OrdMap (StrictWeak Equiv lt_trans)

variable {K V : Type}

/-! ### Minimum and maximum -/

/-- The walk down on side `d` ends at the outermost node: the node without a child on that
side, with every node of its path above it on the other side of the walk. -/
theorem extremeLoop_spec (d : Side) (fuel : Nat) :
    ∀ {m : Map K V} {par : Ptr} {t : RbTree (Entry K V)},
      TreeAt m.heap.get m.nil par t → m.nil ∉ treeAddrs t → t ≠ .nil → t.height ≤ fuel →
      ∃ q c y u, extremeLoop d fuel m (treeAddr m.nil t) = .ok y.addr ∧
        t = plug q (RbTree.join d c .nil y u) ∧ ∀ f ∈ q, f.side = d := by
  induction fuel with
  | zero =>
    intro m par t _ _ hne hfuel
    obtain ⟨c, t1, e, u, rfl⟩ := RbTree.exists_join_of_ne_nil hne d
    simp at hfuel
  | succ fuel ih =>
    intro m par t ht hnil hne hfuel
    obtain ⟨c, t1, e, u, rfl⟩ := RbTree.exists_join_of_ne_nil hne d
    obtain ⟨he, ht1, -⟩ := treeAt_join.mp ht
    have hnil1 : m.nil ∉ treeAddrs t1 := fun hm =>
      hnil (mem_treeAddrs_join.mpr (Or.inr (Or.inl hm)))
    unfold extremeLoop
    rw [treeAddr_join]
    simp only [node_of_get he, bind, Except.bind, cell_child]
    by_cases hleaf : t1 = .nil
    · subst hleaf
      refine ⟨[], c, e, u, ?_, rfl, fun f hf => by simp at hf⟩
      simp [pure, Except.pure]
    · have hgo : treeAddr m.nil t1 ≠ m.nil := fun h => hleaf ((treeAddr_eq_nil_iff hnil1).mp h)
      have hh : t1.height ≤ fuel := by
        rw [RbTree.height_join] at hfuel
        omega
      obtain ⟨q, c', y, v, hrun, heq, hq⟩ := ih ht1 hnil1 hleaf hh
      refine ⟨q ++ [⟨d, c, e, u⟩], c', y, v, ?_, ?_, ?_⟩
      · rw [if_pos hgo, hrun]
      · rw [RbPath.plug_append, ← heq]
        rfl
      · intro f hf
        rcases List.mem_append.mp hf with hf | hf
        · exact hq f hf
        · rw [List.mem_singleton.mp hf]

/-! ### Successor and predecessor -/

/-- The address of the first entry of a list, or the sentinel. -/
def headAddr (nil : Ptr) : List (Entry K V) → Ptr
  | [] => nil
  | e :: _ => e.addr

/-- The walk up ends at the first node that has the walk on its other side: the first entry
beyond the hole. -/
theorem climbLoop_spec (d : Side) (fuel : Nat) :
    ∀ {m : Map K V} {p : RbPath (Entry K V)} {t : RbTree (Entry K V)},
      m.Rep (plug p t) → t ≠ .nil → p.length < fuel →
      climbLoop d fuel m (treeAddr m.nil t) (pathAddr m.nil p)
        = .ok (headAddr m.nil (beyond d p)) := by
  induction fuel with
  | zero => intro m p t _ _ hlt; omega
  | succ fuel ih =>
    intro m p t h ht hlt
    unfold climbLoop
    cases p with
    | nil => cases d <;> simp [before, after, headAddr, pure, Except.pure]
    | cons f q =>
      have hfn := h.node_frame
      have hne : f.elem.addr ≠ m.nil := Rep.addr_ne_nil (p := q) h
      have hside := h.child_iff (Or.inl ht) d
      simp only [pathAddr_cons, hne, ne_eq, not_false_eq_true, if_true, hfn, bind, Except.bind,
        cell_parent]
      by_cases hs : f.side = d
      · rw [if_pos (hside.mpr hs)]
        have hup := ih (p := q) (t := f.fill t) h (RbTree.join_ne_nil _ _ _ _ _)
          (by simp only [List.length_cons] at hlt; omega)
        rw [show treeAddr m.nil (f.fill t) = f.elem.addr from treeAddr_join ..] at hup
        rw [hup, RbPath.beyond_cons_of_side hs]
      · rw [if_neg fun heq => hs (hside.mp heq)]
        rw [RbPath.beyond_cons_of_flip ((Side.eq_or_eq_flip f.side d).resolve_left hs)]
        rfl

/-- Nothing lies in front of the end of a leftmost path. -/
theorem before_eq_nil {q : RbPath (Entry K V)} (hq : ∀ f ∈ q, f.side = .left) :
    before q = [] := by
  have h := RbPath.beyond_eq_nil hq
  simpa using h

/-- The entries of a subtree whose leftmost path ends at `y` start with `y`. -/
theorem toList_plug_left {q : RbPath (Entry K V)} {c : Bool} {y : Entry K V}
    {u : RbTree (Entry K V)} (hq : ∀ f ∈ q, f.side = .left) :
    (plug q (RbTree.join .left c .nil y u)).toList = y :: (u.toList ++ after q) :=
  RbPath.toListTo_plug_outermost (d := .right) hq

/-- `Successor` and `Predecessor` go to the next entry on their side: the first one of the
subtree on that side, or else the first one beyond the node. -/
theorem neighbour_spec (d : Side) {m : Map K V} {p : RbPath (Entry K V)} {c : Bool}
    {t u : RbTree (Entry K V)} {e : Entry K V} (h : m.Rep (plug p (RbTree.join d c t e u)))
    (hsize : (plug p (RbTree.join d c t e u)).toList.length ≤ m.size) :
    neighbour d m e.addr = .ok (headAddr m.nil (t.toListTo d ++ beyond d p)) := by
  have hn := h.node_join
  obtain ⟨-, hcells⟩ := treeAt_plug.mp h.cells
  obtain ⟨-, ht, -⟩ := treeAt_join.mp hcells
  have hlen := (RbPath.toList_plug_perm p (RbTree.join d c t e u)).length_eq
  have hjoin := (RbTree.toList_join_perm d c t e u).length_eq
  simp only [List.length_append, List.length_cons] at hlen hjoin
  have hplen := RbPath.length_le p (RbTree.join d c t e u)
  have hnil : m.nil ∉ treeAddrs t := fun hm =>
    h.nil_notMem_sub (mem_treeAddrs_join.mpr (Or.inr (Or.inl hm)))
  unfold neighbour
  simp only [hn, bind, Except.bind, cell_child, cell_parent]
  by_cases hleaf : t = .nil
  · -- Without a subtree on side `d` the walk goes up.
    subst hleaf
    rw [if_neg (by simp), ← treeAddr_join m.nil d c .nil e u]
    rw [climbLoop_spec d m.fuel h (RbTree.join_ne_nil _ _ _ _ _) (by unfold fuel; omega)]
    simp
  · rw [if_pos fun heq => hleaf ((treeAddr_eq_nil_iff hnil).mp heq)]
    have hheight := RbTree.height_le_length t
    obtain ⟨q, c', y, v, hrun, heq, hq⟩ := extremeLoop_spec d.flip m.fuel ht hnil hleaf
      (by unfold fuel; omega)
    rw [hrun, heq, RbPath.toListTo_plug_outermost hq]
    rfl

/-- `++it` at an entry of the represented tree goes to the next entry, or to `End()`. -/
theorem increment_spec {m : Map K V} {t : RbTree (Entry K V)} (h : m.Rep t)
    (hsize : t.toList.length ≤ m.size) {pre post : List (Entry K V)} {e : Entry K V}
    (hl : t.toList = pre ++ e :: post) :
    m.increment e.addr = .ok (headAddr m.nil post) := by
  obtain ⟨p, c, l, r, rfl, -, rfl⟩ := RbPath.exists_plug_of_toList hl
  have hne : e.addr ≠ m.nil := h.addr_ne_nil (d := .left)
  unfold increment
  rw [if_neg hne]
  exact neighbour_spec .right (t := r) (u := l) h hsize

/-- `Minimum` and `Maximum` of the root are the outermost entry of the map. In an empty map they
stay at the sentinel, which is its own child. -/
theorem extremeLoop_root (d : Side) {m : Map K V} {t : RbTree (Entry K V)} (h : m.Rep t)
    (hsize : t.toList.length ≤ m.size) :
    extremeLoop d m.fuel m m.root = .ok (headAddr m.nil (t.toListTo d.flip)) := by
  rw [h.root]
  by_cases ht : t = .nil
  · subst ht
    obtain ⟨n, hn, -, hl, hr⟩ := h.nilCell
    have hchild : n.child d = m.nil := by
      cases d with
      | left => exact hl
      | right => exact hr
    show extremeLoop d (m.size + 1 + 1) m m.nil = _
    unfold extremeLoop
    simp [node_of_get hn, bind, Except.bind, hchild, headAddr, pure, Except.pure]
  · have hheight := RbTree.height_le_length t
    obtain ⟨q, c, y, u, hrun, heq, hq⟩ := extremeLoop_spec d m.fuel h.cells h.nil_notMem ht
      (by unfold fuel; omega)
    have hout := RbPath.toListTo_plug_outermost (d := d.flip) (q := q) (c := c) (y := y) (u := u)
      (by simpa using hq)
    rw [Side.flip_flip] at hout
    rw [hrun, heq, hout]
    rfl

/-- `Begin()` is the first entry, or `End()`. -/
theorem begin_spec {m : Map K V} {t : RbTree (Entry K V)} (h : m.Rep t)
    (hsize : t.toList.length ≤ m.size) :
    m.begin' = .ok (headAddr m.nil t.toList) :=
  extremeLoop_root .left h hsize

/-- `--it` at an entry of the represented tree goes to the entry in front of it, or to `End()`. -/
theorem decrement_spec {m : Map K V} {t : RbTree (Entry K V)} (h : m.Rep t)
    (hsize : t.toList.length ≤ m.size) {pre post : List (Entry K V)} {e : Entry K V}
    (hl : t.toList = pre ++ e :: post) :
    m.decrement e.addr = .ok (headAddr m.nil pre.reverse) := by
  obtain ⟨p, c, l, r, rfl, rfl, -⟩ := RbPath.exists_plug_of_toList hl
  have hne : e.addr ≠ m.nil := h.addr_ne_nil (d := .left)
  unfold decrement
  rw [if_neg hne, List.reverse_append]
  exact neighbour_spec .left (t := l) (u := r) h hsize

/-- `--End()` goes to the last entry. -/
theorem decrement_end {m : Map K V} {t : RbTree (Entry K V)} (h : m.Rep t)
    (hsize : t.toList.length ≤ m.size) :
    m.decrement m.endIt = .ok (headAddr m.nil t.toList.reverse) := by
  unfold decrement
  rw [if_pos (show m.endIt = m.nil from rfl)]
  exact extremeLoop_root .right h hsize

/-! ### The search loop -/

section
variable (compare : K → K → Bool)

/-- The place of a key in a sorted tree: behind the smaller and before the greater keys. -/
def Between (p : RbPath (Entry K V)) (key : K) : Prop :=
  (∀ e ∈ before p, compare e.key key = true) ∧ ∀ e ∈ after p, compare key e.key = true

/-- Where a search for `key` ends in the tree `t`. -/
def Search.Ends (nil : Ptr) (t : RbTree (Entry K V)) (key : K) : Search → Prop
  | .found x => ∃ q c l e r, t = plug q (.node c l e r) ∧ x = e.addr ∧ Equiv compare key e.key
  | .absent y => ∃ q, t = plug q .nil ∧ y = pathAddr nil q ∧ Between compare q key

variable {compare}

/-- Below a greater node the greater keys still lie behind the hole. -/
theorem Between.left [StrictWeak compare] {p : RbPath (Entry K V)}
    {c : Bool} {l r : RbTree (Entry K V)} {e : Entry K V} {key : K}
    (hp : Between compare p key) (hs : Sorted compare (plug p (.node c l e r)).toList)
    (hlt : compare key e.key = true) : Between compare (⟨.left, c, e, r⟩ :: p) key := by
  refine ⟨hp.1, ?_⟩
  intro e' he'
  simp only [after, List.cons_append, List.mem_cons, List.mem_append] at he'
  unfold Sorted at hs
  rw [RbPath.toList_plug, RbTree.toList_node] at hs
  simp only [List.pairwise_append, List.pairwise_cons] at hs
  rcases he' with rfl | he' | he'
  · exact hlt
  · exact lt_trans hlt (hs.1.2.1.2.1.1 _ he')
  · exact hp.2 _ he'

/-- Below a smaller node the smaller keys still lie in front of the hole. -/
theorem Between.right [StrictWeak compare] {p : RbPath (Entry K V)}
    {c : Bool} {l r : RbTree (Entry K V)} {e : Entry K V} {key : K}
    (hp : Between compare p key) (hs : Sorted compare (plug p (.node c l e r)).toList)
    (hlt : compare e.key key = true) : Between compare (⟨.right, c, e, l⟩ :: p) key := by
  refine ⟨?_, hp.2⟩
  intro e' he'
  simp only [before, List.mem_append, List.mem_singleton] at he'
  unfold Sorted at hs
  rw [RbPath.toList_plug, RbTree.toList_node] at hs
  simp only [List.pairwise_append, List.pairwise_cons] at hs
  rcases he' with he' | he' | rfl
  · exact hp.1 _ he'
  · have hle := hs.1.2.1.2.2 _ he' e List.mem_cons_self
    exact lt_trans hle hlt
  · exact hlt

/-- The search loop ends at an equivalent key or at the leaf where the key belongs. It takes
no more rounds than the subtree is high. -/
theorem searchLoop_spec [StrictWeak compare] (fuel : Nat) :
    ∀ {m : Map K V} {p : RbPath (Entry K V)} {t : RbTree (Entry K V)} {key : K},
      m.Rep (plug p t) → Sorted compare (plug p t).toList → Between compare p key →
      t.height < fuel →
      ∃ s, searchLoop compare fuel m key (treeAddr m.nil t) (pathAddr m.nil p) = .ok s ∧
        Search.Ends compare m.nil (plug p t) key s := by
  induction fuel with
  | zero => intro m p t key _ _ _ hlt; omega
  | succ fuel ih =>
    intro m p t key h hs hp hlt
    unfold searchLoop
    cases t with
    | nil =>
      exact ⟨.absent (pathAddr m.nil p), by simp [pure, Except.pure], p, rfl, rfl, hp⟩
    | node c l e r =>
      have hne : e.addr ≠ m.nil := h.addr_ne_nil (d := .left)
      have hn := h.node_join (d := .left)
      simp only [RbTree.height] at hlt
      simp only [treeAddr_node, ne_eq, hne, not_false_eq_true, if_true, hn, bind, Except.bind,
        cell_key]
      by_cases h1 : compare key e.key = true
      · rw [if_pos h1]
        exact ih (p := ⟨.left, c, e, r⟩ :: p) (t := l) h hs (hp.left hs h1) (by omega)
      · rw [if_neg h1]
        by_cases h2 : compare e.key key = true
        · rw [if_pos h2]
          exact ih (p := ⟨.right, c, e, l⟩ :: p) (t := r) h hs (hp.right hs h2) (by omega)
        · rw [if_neg h2]
          refine ⟨.found e.addr, rfl, p, c, l, e, r, rfl, rfl, ?_, ?_⟩
          · simpa using h1
          · simpa using h2

end

end KernelEventsTrace.Driver.Std.Map
