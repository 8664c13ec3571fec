import KernelEventsTrace.Proofs.Map.World

/-!
# `KernelEventsTrace.Proofs.Map.Range`: which ranges `Erase(first, last)` erases

`Erase(position)` returns `x`, the root of the subtree that it puts in the place of the node
it spliced out, and `Erase(first, last)` goes on from there. `x` is the successor only if
`position` has no left child, and a right child or nothing behind it. `Replacement` says what
`x` is in each branch of the source, and `eraseAt_next` that `Erase(position)` returns it.

`x` is the sentinel or a leaf of the new tree, so the loop erases at most two nodes before it
comes to the sentinel. It stops there if `last` is `End()`, and otherwise `Erase(End())` gives
it the null pointer (`eraseLoop_end`).

* `Reaches` are the ranges of a map, and `RangeErased` is what `Erase` should do with one.
* `World.Reachable.eraseRange_iff`: the ranges and positions for which it does.
-/

set_option autoImplicit false

namespace KernelEventsTrace.Driver.Std

open KernelEventsTrace.RedBlack
open KernelEventsTrace.RedBlack.RbPath (plug before after)
open KernelEventsTrace.OrdMap

variable {K V : Type} {compare : K → K → Bool}

namespace Map

/-! ### Ranges -/

/-- What is left of a list without repetitions when its middle part is filtered out. -/
theorem filter_notMem_map {α β : Type} [DecidableEq β] {f : α → β} {pre mid post : List α}
    (hnd : ((pre ++ (mid ++ post)).map f).Nodup) :
    (pre ++ (mid ++ post)).filter (fun a => f a ∉ mid.map f) = pre ++ post := by
  simp only [List.map_append, List.nodup_append, List.mem_append] at hnd
  obtain ⟨-, ⟨-, -, hmid⟩, hpre⟩ := hnd
  have hkeep : ∀ l : List α, (∀ a ∈ l, f a ∉ mid.map f) →
      l.filter (fun a => f a ∉ mid.map f) = l := fun l hl =>
    List.filter_eq_self.mpr fun a ha => decide_eq_true (hl a ha)
  have hdrop : mid.filter (fun a => f a ∉ mid.map f) = [] :=
    List.filter_eq_nil_iff.mpr fun a ha hn => of_decide_eq_true hn (List.mem_map_of_mem ha)
  rw [List.filter_append, List.filter_append, hdrop, List.nil_append]
  rw [hkeep pre fun a ha hm => hpre _ (List.mem_map_of_mem ha) _ (Or.inl hm) rfl,
    hkeep post fun a ha hm => hmid _ hm _ (List.mem_map_of_mem ha) rfl]

/-- `last` is reached from `first` by `++` steps, over the elements `range`. -/
inductive Reaches (m : Map K V) : Iterator → Iterator → List Iterator → Prop where
  | refl (it : Iterator) : Reaches m it it []
  | step {it it' last : Iterator} {range : List Iterator} :
      it ≠ m.endIt → m.increment it = .ok it' → Reaches m it' last range →
      Reaches m it last (it :: range)

/-- `Erase(first, last)` ends, returns `last`, and takes exactly the elements `range` out of a
well-formed map. -/
def RangeErased (compare : K → K → Bool) (m : Map K V) (first last : Iterator)
    (range : List Iterator) : Prop :=
  ∃ fuel m' t t', m.Rep t ∧ eraseRange fuel m first last = .ok (last, m') ∧ WF compare m' t' ∧
    t'.toList = t.toList.filter (fun e => e.addr ∉ range) ∧ m'.size + range.length = m.size

/-- `Erase(position)` returns the iterator that `++` goes to. -/
def NextReturned (m : Map K V) (position : Iterator) : Prop :=
  ∃ it m', m.increment position = .ok it ∧ m.eraseAt position = .ok (it, m')

/-- The ranges that `Erase` handles: the empty one, an element without a left child with its
right child as the end, and the last one or two elements if the first has no left child. -/
def RangeHandled (m : Map K V) (first last : Iterator) : Prop :=
  first = last ∨ ∃ n, m.node first = .ok n ∧ n.left = m.nil ∧
    ((n.right ≠ m.nil ∧ last = n.right) ∨
      last = m.endIt ∧ (m.maximum m.root = .ok first ∨ m.maximum m.root = .ok n.right))

/-- The positions that `Erase` handles: no left child, and a right child or nothing behind. -/
def PositionHandled (m : Map K V) (position : Iterator) : Prop :=
  ∃ n, m.node position = .ok n ∧ n.left = m.nil ∧
    (n.right ≠ m.nil ∨ m.maximum m.root = .ok position)

/-- A range is a part of the in-order sequence. The induction is on the `++` steps. -/
theorem Reaches.split {m : Map K V} {t : RbTree (Entry K V)} (h : m.Rep t)
    (hsize : t.toList.length ≤ m.size) {first last : Iterator} {range : List Iterator}
    (hr : m.Reaches first last range) :
    ∀ {pre rest : List (Entry K V)}, t.toList = pre ++ rest → first = headAddr m.nil rest →
      ∃ mid post, rest = mid ++ post ∧ range = mid.map Entry.addr ∧
        last = headAddr m.nil post := by
  induction hr with
  | refl it =>
    intro pre rest _ hfirst
    exact ⟨[], rest, rfl, rfl, hfirst⟩
  | @step it it' last range hne hit _ ih =>
    intro pre rest hl hfirst
    cases rest with
    | nil => exact absurd hfirst hne
    | cons e rest =>
      have hnext := increment_spec h hsize hl
      rw [show it = e.addr from hfirst, hnext] at hit
      have hhead := (Except.ok.inj hit).symm
      have hl' : t.toList = (pre ++ [e]) ++ rest := by simpa using hl
      obtain ⟨mid, post, rfl, rfl, hlast⟩ := ih hl' hhead
      exact ⟨e :: mid, post, rfl, by rw [show it = e.addr from hfirst]; rfl, hlast⟩

/-- `Maximum` of the root is the last entry. -/
theorem maximum_spec {m : Map K V} {t : RbTree (Entry K V)} (h : m.Rep t)
    (hsize : t.toList.length ≤ m.size) {pre : List (Entry K V)} {e : Entry K V}
    (hl : t.toList = pre ++ [e]) : m.maximum m.root = .ok e.addr := by
  have hmax := extremeLoop_root .right h hsize
  rw [show t.toListTo Side.right.flip = t.toList.reverse from rfl, hl, List.reverse_append] at hmax
  exact hmax

/-- An element is the last entry if `Maximum` of the root returns it. -/
theorem after_eq_nil_of_maximum {m : Map K V} {t : RbTree (Entry K V)} (h : m.Rep t)
    (hsize : t.toList.length ≤ m.size) {pre post : List (Entry K V)} {e : Entry K V}
    (hl : t.toList = pre ++ e :: post) (hmax : m.maximum m.root = .ok e.addr) : post = [] := by
  rcases List.eq_nil_or_concat post with hnil | ⟨post', b, rfl⟩
  · exact hnil
  · have hl' : t.toList = (pre ++ e :: post') ++ [b] := by
      rw [hl]
      simp
    have hb := maximum_spec h hsize hl'
    -- The last entry has another address.
    have heq : b.addr = e.addr := Except.ok.inj (hb.symm.trans hmax)
    have hnd := h.nodup
    unfold treeAddrs at hnd
    rw [hl] at hnd
    simp [List.nodup_append, heq] at hnd

/-- `Maximum` of the root of a nonempty map is not the sentinel. -/
theorem maximum_ne_nil {m : Map K V} {t : RbTree (Entry K V)} (h : m.Rep t)
    (hsize : t.toList.length ≤ m.size) (ht : t.toList ≠ []) :
    m.maximum m.root ≠ .ok m.nil := by
  intro hmax
  rcases List.eq_nil_or_concat t.toList with hnil | ⟨pre, a, hl⟩
  · exact ht hnil
  · rw [List.concat_eq_append] at hl
    have ha := maximum_spec h hsize hl
    have hmem : a ∈ t.toList := by
      rw [hl]
      simp
    exact (h.get_of_mem hmem).1 (Except.ok.inj (ha.symm.trans hmax))

/-! ### What `Erase(position)` returns -/

/-- What `Erase(position)` returns at a node with the children `l` and `r`. -/
inductive Replacement (nil : Ptr) : RbTree (Entry K V) → RbTree (Entry K V) → Iterator → Prop where
  /-- The right child. -/
  | right (r : RbTree (Entry K V)) : Replacement nil .nil r (treeAddr nil r)
  /-- The left child. -/
  | left {l : RbTree (Entry K V)} : l ≠ .nil → Replacement nil l .nil (treeAddr nil l)
  /-- The right child of the successor. -/
  | next {l : RbTree (Entry K V)} {ctx : RbPath (Entry K V)} {c : Bool} {y : Entry K V}
      {u : RbTree (Entry K V)} : l ≠ .nil → (∀ f ∈ ctx, f.side = .left) →
      Replacement nil l (plug ctx (.node c .nil y u)) (treeAddr nil u)

/-- The successor `y` is the first entry of the right subtree. -/
theorem toList_successor {ctx : RbPath (Entry K V)} {c : Bool} {y : Entry K V}
    {u : RbTree (Entry K V)} (hctx : ∀ f ∈ ctx, f.side = .left) :
    (plug ctx (.node c .nil y u)).toList = y :: (u.toList ++ after ctx) :=
  toList_plug_left hctx

/-- Without a left child the result is the right child. -/
theorem Replacement.eq_right {nil x : Ptr} {l r : RbTree (Entry K V)} (h : Replacement nil l r x)
    (hl : l = .nil) : x = treeAddr nil r := by
  cases h with
  | right r => rfl
  | left hne => exact absurd hl hne
  | next hne _ => exact absurd hl hne

/-- The result of `Erase(position)`: the sentinel or a leaf of the new tree. -/
def AtLeaf (nil : Ptr) (t : RbTree (Entry K V)) (x : Iterator) : Prop :=
  x = nil ∨ ∃ q b, x = b.addr ∧ t = plug q (.node false .nil b .nil)

/-- After `unlink` took a node out next to a leaf, `Erase(position)` returns the sentinel or a
leaf. -/
theorem Unlinked.eraseAt_leaf {m m1 : Map K V} {p q : RbPath (Entry K V)} {c red : Bool}
    {l r t : RbTree (Entry K V)} {e y : Entry K V} {d : Side}
    (h : m.WF compare (plug p (.node c l e r)))
    (hun : Unlinked m m1 p c l e r red q t)
    (hrb : (plug q (RbTree.join d red .nil y t)).IsRedBlack) :
    ∃ m' t', m.eraseAt e.addr = .ok (treeAddr m.nil t, m') ∧ WF compare m' t' ∧
      m'.nil = m.nil ∧ t'.toList = before p ++ (l.toList ++ r.toList) ++ after p ∧
      AtLeaf m.nil t' (treeAddr m.nil t) := by
  obtain ⟨m', t', hm', hwf, hev, hl', hpaint⟩ := hun.eraseAt h
  refine ⟨m', t', hm', hwf, hev.nil, hl', ?_⟩
  rcases hrb.sibling_of_leaf with rfl | ⟨rfl, b, rfl⟩
  · exact Or.inl rfl
  · -- The red leaf in the hole is painted black, and nothing else moves.
    exact Or.inr ⟨q, b, rfl, hpaint rfl rfl⟩

/-- What `Erase(position)` returns and leaves, by the children of `position`. -/
theorem eraseAt_next {m : Map K V} {p : RbPath (Entry K V)} {c : Bool} {l r : RbTree (Entry K V)}
    {e : Entry K V} (h : m.WF compare (plug p (.node c l e r))) :
    ∃ x m' t', m.eraseAt e.addr = .ok (x, m') ∧ WF compare m' t' ∧ m'.nil = m.nil ∧
      t'.toList = before p ++ (l.toList ++ r.toList) ++ after p ∧ AtLeaf m.nil t' x ∧
      Replacement m.nil l r x := by
  -- The three branches of `Erase`.
  by_cases hl : l = .nil
  · subst hl
    obtain ⟨m1, hun⟩ := unlinked_left h.rep h.redBlack
    obtain ⟨m', t', hm', hwf, hnil, hl', hleaf⟩ := hun.eraseAt_leaf (d := .left) h h.redBlack
    exact ⟨_, m', t', hm', hwf, hnil, hl', hleaf, Replacement.right r⟩
  · by_cases hr : r = .nil
    · subst hr
      obtain ⟨m1, hun⟩ := unlinked_right h.rep h.redBlack hl
      obtain ⟨m', t', hm', hwf, hnil, hl', hleaf⟩ := hun.eraseAt_leaf (d := .right) h h.redBlack
      exact ⟨_, m', t', hm', hwf, hnil, hl', hleaf, Replacement.left hl⟩
    · obtain ⟨m1, ctx, cy, y, u, rfl, hctx, hrb, hun⟩ :=
        unlinked_both h.rep h.redBlack hl hr (Nat.le_of_eq h.size.symm)
      obtain ⟨m', t', hm', hwf, hnil, hl', hleaf⟩ := hun.eraseAt_leaf (d := .left) h hrb
      exact ⟨_, m', t', hm', hwf, hnil, hl', hleaf, Replacement.next hl hctx⟩

/-! ### The loop of `Erase(first, last)` -/

/-- From `End()` the loop only ends at once: `Erase(End())` returns the null pointer, which
cannot be erased. -/
theorem eraseLoop_end {m : Map K V} (hnil : m.nil ≠ nullptr) {last : Iterator}
    (hlast : last ≠ m.nil) (hnull : last ≠ nullptr) (fuel : Nat) (m' : Map K V) :
    eraseLoop fuel m m.nil last ≠ .ok m' := by
  have hfault : m.eraseAt nullptr = .error .deref := by
    unfold eraseAt
    rw [if_neg (show nullptr ≠ m.endIt from hnil.symm)]
    rfl
  have hnext : ∀ n, eraseLoop n m nullptr last ≠ .ok m' := by
    intro n heq
    cases n with
    | zero => cases heq
    | succ n =>
      simp only [eraseLoop, ne_eq, hnull.symm, not_false_eq_true, if_true, hfault, bind,
        Except.bind] at heq
      cases heq
  intro heq
  cases fuel with
  | zero => cases heq
  | succ fuel =>
    have hend : m.eraseAt m.nil = .ok (nullptr, m) := by
      unfold eraseAt
      rw [if_pos (show m.nil = m.endIt from rfl)]
      rfl
    simp only [eraseLoop, ne_eq, hlast.symm, not_false_eq_true, if_true, hend, bind,
      Except.bind] at heq
    exact hnext fuel heq

/-- One round of the loop at an iterator that is not `last`. -/
theorem eraseLoop_succ {m m1 : Map K V} {first last x : Iterator} (hne : first ≠ last)
    (hm1 : m.eraseAt first = .ok (x, m1)) (fuel : Nat) :
    eraseLoop (fuel + 1) m first last = eraseLoop fuel m1 x last := by
  simp only [eraseLoop, ne_eq, hne, not_false_eq_true, if_true, hm1, bind, Except.bind]

/-- The loop ends at once at `last`. -/
theorem eraseLoop_last (fuel : Nat) (m : Map K V) (last : Iterator) :
    eraseLoop (fuel + 1) m last last = .ok m := by
  simp only [eraseLoop, ne_eq, not_true_eq_false, if_false, pure, Except.pure]

/-- The loop changes nothing at `last`. -/
theorem eraseLoop_self {m m' : Map K V} {last : Iterator} {fuel : Nat}
    (h : eraseLoop fuel m last last = .ok m') : m' = m := by
  cases fuel with
  | zero => cases h
  | succ fuel => exact (Except.ok.inj ((eraseLoop_last fuel m last).symm.trans h)).symm

/-- `Erase(first, last)` is its loop. -/
theorem eraseLoop_of_eraseRange {m m' : Map K V} {first last it : Iterator} {fuel : Nat}
    (h : eraseRange fuel m first last = .ok (it, m')) :
    eraseLoop fuel m first last = .ok m' := by
  unfold eraseRange at h
  cases hrun : eraseLoop fuel m first last with
  | error e =>
    simp only [hrun, bind, Except.bind] at h
    cases h
  | ok m1 =>
    simp only [hrun, bind, Except.bind, pure, Except.pure] at h
    rw [(Prod.mk.inj (Except.ok.inj h)).2]

/-- After one erasure that returned `x`, the loop ends at once, or it erases the leaf `x` and
ends at `End()`. -/
theorem eraseLoop_leaf {m m' : Map K V} {t : RbTree (Entry K V)} (h : m.WF compare t)
    {x last : Iterator} (hx : AtLeaf m.nil t x) (hnil : m.nil ≠ nullptr)
    (hnull : last ≠ nullptr) {fuel : Nat} (hrun : eraseLoop fuel m x last = .ok m') :
    (x = last ∧ m' = m) ∨
      x ≠ last ∧ last = m.nil ∧ ∃ t' p b, x = b.addr ∧ m'.WF compare t' ∧
        t.toList = before p ++ b :: after p ∧ t'.toList = before p ++ after p := by
  by_cases hxl : x = last
  · subst hxl
    exact Or.inl ⟨rfl, eraseLoop_self hrun⟩
  · rcases hx with rfl | ⟨p, b, rfl, rfl⟩
    · exact absurd hrun (eraseLoop_end hnil (fun h => hxl h.symm) hnull fuel m')
    · -- The leaf has no children, so its erasure returns the sentinel.
      obtain ⟨x', m1, t1, hm1, hwf, hnil1, hl1, -, hrep⟩ := eraseAt_next h
      have hx' : x' = m.nil := hrep.eq_right rfl
      subst hx'
      cases fuel with
      | zero => cases hrun
      | succ fuel =>
        rw [eraseLoop_succ hxl hm1] at hrun
        have hlast : last = m.nil := by
          -- Otherwise the next round erases at `End()`.
          by_contra hne
          rw [← hnil1] at hne hrun hnil
          exact eraseLoop_end hnil hne hnull fuel m' hrun
        subst hlast
        obtain rfl := eraseLoop_self hrun
        refine Or.inr ⟨hxl, rfl, t1, p, b, rfl, hwf, ?_, ?_⟩
        · rw [RbPath.toList_plug]
          simp
        · simpa using hl1

/-! ### Ranges by the children of their first element -/

/-- Two entries at different places have different addresses. -/
theorem Rep.addr_ne {m : Map K V} {t : RbTree (Entry K V)} (h : m.Rep t)
    {pre post : List (Entry K V)} (hl : t.toList = pre ++ post) {a b : Entry K V} (ha : a ∈ pre)
    (hb : b ∈ post) : a.addr ≠ b.addr := by
  have hnd := h.nodup
  unfold treeAddrs at hnd
  rw [hl, List.map_append] at hnd
  exact (List.nodup_append.mp hnd).2.2 _ (List.mem_map_of_mem ha) _ (List.mem_map_of_mem hb)

/-- The head of a part of the tree is the sentinel only if the part is empty. -/
theorem Rep.headAddr_eq_nil {m : Map K V} {t : RbTree (Entry K V)} (h : m.Rep t)
    {pre post : List (Entry K V)} (hl : t.toList = pre ++ post) :
    headAddr m.nil post = m.nil ↔ post = [] := by
  constructor
  · intro hhead
    cases post with
    | nil => rfl
    | cons e post =>
      have he : e ∈ t.toList := by
        rw [hl]
        simp
      exact absurd hhead (h.get_of_mem he).1
  · rintro rfl
    rfl

/-- The head of a part of the tree is not the null pointer. -/
theorem Rep.headAddr_ne_nullptr {m : Map K V} {t : RbTree (Entry K V)} (h : m.Rep t)
    {pre post : List (Entry K V)} (hl : t.toList = pre ++ post) :
    headAddr m.nil post ≠ nullptr := by
  cases post with
  | nil => exact h.nil_ne_nullptr
  | cons e post =>
    have he : e ∈ t.toList := by
      rw [hl]
      simp
    obtain ⟨-, n, hn, -⟩ := h.get_of_mem he
    intro hnull
    rw [show e.addr = nullptr from hnull] at hn
    cases hn

/-- The address of a nonempty subtree is that of one of its entries. -/
theorem exists_mem_treeAddr {t : RbTree (Entry K V)} (nil : Ptr) (ht : t ≠ .nil) :
    ∃ b ∈ t.toList, treeAddr nil t = b.addr := by
  obtain ⟨b, hb, heq⟩ := List.mem_map.mp ((treeAddr_mem nil t).resolve_right ht)
  exact ⟨b, hb, heq.symm⟩

/-- The ranges that `Erase` handles, by the children `l` and `r` of their first element: `mid` is
the rest of the range, and `post` what follows it. -/
def NearEnd (l r : RbTree (Entry K V)) (mid post : List (Entry K V)) : Prop :=
  l = .nil ∧ ((mid = [] ∧ r ≠ .nil) ∨ (mid = r.toList ∧ post = []))

section
variable {m : Map K V} {p : RbPath (Entry K V)} {c : Bool} {l r : RbTree (Entry K V)}
  {e : Entry K V} {mid post : List (Entry K V)}

/-- The pointers that `RangeHandled` reads show the shape of the tree. -/
theorem rangeHandled_iff (h : m.WF compare (plug p (.node c l e r)))
    (hpost : r.toList ++ after p = mid ++ post) :
    m.RangeHandled e.addr (headAddr m.nil post) ↔ NearEnd l r mid post := by
  have hl := RbPath.toList_plug_node p c l r e
  have hsize : (plug p (.node c l e r)).toList.length ≤ m.size := Nat.le_of_eq h.size.symm
  have hn := h.rep.node_join (d := .left)
  have hlp : (plug p (.node c l e r)).toList = (before p ++ l.toList ++ e :: mid) ++ post := by
    rw [hl, hpost]
    simp
  constructor
  · intro hh
    rcases hh with heq | ⟨n, hn', hleft, hcase⟩
    · -- The range is not empty.
      exfalso
      cases post with
      | nil => exact h.rep.addr_ne_nil (d := .left) heq
      | cons b post =>
        exact h.rep.addr_ne hlp (a := e) (b := b) (by simp) List.mem_cons_self heq
    · obtain rfl := Except.ok.inj (hn.symm.trans hn')
      obtain rfl : l = .nil := h.rep.left_eq_nil.mp hleft
      refine ⟨rfl, ?_⟩
      have hsib := h.redBlack.sibling_of_leaf (d := .left)
      rcases hcase with ⟨hright, hlast⟩ | ⟨hend, hmax⟩
      · -- The range ends at the right child, which is a leaf.
        left
        rcases hsib with rfl | ⟨-, b, rfl⟩
        · exact absurd rfl hright
        · refine ⟨?_, by simp⟩
          cases mid with
          | nil => rfl
          | cons b' mid =>
            exfalso
            obtain rfl : b = b' := by simpa using (List.cons.inj hpost).1
            cases post with
            | nil => exact (h.rep.get_of_mem (e := b) (by rw [hl]; simp)).1 hlast.symm
            | cons a post =>
              exact h.rep.addr_ne hlp (a := b) (b := a) (by simp) List.mem_cons_self hlast.symm
      · -- The range ends at `End()`, and its first element or the right child is the last entry.
        right
        obtain rfl : post = [] := (h.rep.headAddr_eq_nil hlp).mp hend
        refine ⟨?_, rfl⟩
        rw [List.append_nil] at hpost
        rw [← hpost]
        rcases hmax with hmax | hmax
        · have hnone := after_eq_nil_of_maximum h.rep hsize hl hmax
          obtain ⟨hr, ha⟩ := List.append_eq_nil_iff.mp hnone
          rw [hr, ha]
          rfl
        · rcases hsib with rfl | ⟨-, b, rfl⟩
          · -- The last entry is not the sentinel.
            exact absurd hmax (maximum_ne_nil h.rep hsize (by rw [hl]; simp))
          · have hlb : (plug p (.node c .nil e (.node true .nil b .nil))).toList =
                (before p ++ [e]) ++ b :: after p := by
              rw [hl]
              simp
            rw [after_eq_nil_of_maximum h.rep hsize hlb hmax, List.append_nil]
  · rintro ⟨rfl, hcase⟩
    have hsib := h.redBlack.sibling_of_leaf (d := .left)
    refine Or.inr ⟨_, hn, rfl, ?_⟩
    rcases hcase with ⟨rfl, hr⟩ | ⟨rfl, rfl⟩
    · left
      rcases hsib with rfl | ⟨-, b, rfl⟩
      · exact absurd rfl hr
      · refine ⟨(h.rep.get_of_mem (e := b) (by rw [hl]; simp)).1, ?_⟩
        rw [List.nil_append] at hpost
        rw [← hpost]
        rfl
    · right
      refine ⟨rfl, ?_⟩
      have ha : after p = [] := by simpa using hpost
      rcases hsib with rfl | ⟨-, b, rfl⟩
      · left
        have hlast : (plug p (.node c .nil e .nil)).toList = before p ++ [e] := by
          rw [hl, ha]
          simp
        exact maximum_spec h.rep hsize hlast
      · right
        have hlast : (plug p (.node c .nil e (.node true .nil b .nil))).toList =
            (before p ++ [e]) ++ [b] := by
          rw [hl, ha]
          simp
        exact maximum_spec h.rep hsize hlast

/-- The entries of the tree that are not in the range. -/
theorem filter_range (h : m.WF compare (plug p (.node c l e r)))
    (hpost : r.toList ++ after p = mid ++ post) :
    (plug p (.node c l e r)).toList.filter
        (fun a => a.addr ∉ e.addr :: mid.map Entry.addr) =
      (before p ++ l.toList) ++ post := by
  have hl : (plug p (.node c l e r)).toList =
      (before p ++ l.toList) ++ ((e :: mid) ++ post) := by
    rw [RbPath.toList_plug_node, hpost]
    simp
  have hnd := h.rep.nodup
  unfold treeAddrs at hnd
  rw [hl] at hnd ⊢
  exact filter_notMem_map hnd

/-- The first element of a range is not its end. -/
theorem first_ne_last (h : m.WF compare (plug p (.node c l e r)))
    (hpost : r.toList ++ after p = mid ++ post) : e.addr ≠ headAddr m.nil post := by
  have hl : (plug p (.node c l e r)).toList = (before p ++ l.toList ++ e :: mid) ++ post := by
    rw [RbPath.toList_plug_node, hpost]
    simp
  cases post with
  | nil => exact h.rep.addr_ne_nil (d := .left)
  | cons b post => exact h.rep.addr_ne hl (by simp) List.mem_cons_self

/-- The loop has erased the range when it ends with the other entries. -/
theorem rangeErased_of_loop (h : m.WF compare (plug p (.node c l e r)))
    (hpost : r.toList ++ after p = mid ++ post) {m' : Map K V} {t' : RbTree (Entry K V)} {n : Nat}
    (hrun : eraseLoop n m e.addr (headAddr m.nil post) = .ok m') (hwf' : m'.WF compare t')
    (hl' : t'.toList = (before p ++ l.toList) ++ post) :
    RangeErased compare m e.addr (headAddr m.nil post) (e.addr :: mid.map Entry.addr) := by
  refine ⟨n, m', _, t', h.rep, ?_, hwf', ?_, ?_⟩
  · unfold eraseRange
    simp only [hrun, bind, Except.bind, pure, Except.pure]
  · rw [hl', filter_range h hpost]
  · rw [hwf'.size, hl', h.size, RbPath.toList_plug_node, hpost]
    simp only [List.length_append, List.length_cons, List.length_map]
    omega

/-- A range that starts at a node near the end of its subtree is erased. -/
theorem rangeErased_of_nearEnd (h : m.WF compare (plug p (.node c l e r)))
    (hpost : r.toList ++ after p = mid ++ post) (hn : NearEnd l r mid post) :
    RangeErased compare m e.addr (headAddr m.nil post) (e.addr :: mid.map Entry.addr) := by
  have hne := first_ne_last h hpost
  obtain ⟨rfl, hcase⟩ := hn
  obtain ⟨x, m1, t1, hm1, hwf1, hnil1, hl1, hleaf, hrep⟩ := eraseAt_next h
  have hx : x = treeAddr m.nil r := hrep.eq_right rfl
  subst hx
  -- If the erasure returns the end of the range, the loop is done.
  have hdone : mid = [] → treeAddr m.nil r = headAddr m.nil post →
      RangeErased compare m e.addr (headAddr m.nil post) (e.addr :: mid.map Entry.addr) := by
    intro hmid hlast
    subst hmid
    have hrun : eraseLoop 2 m e.addr (headAddr m.nil post) = .ok m1 := by
      rw [eraseLoop_succ hne hm1, hlast, eraseLoop_last]
    refine rangeErased_of_loop h hpost hrun hwf1 ?_
    rw [hl1, ← List.nil_append post, ← hpost]
    simp
  have hsib := h.redBlack.sibling_of_leaf (d := .left)
  rcases hcase with ⟨hmid, hr⟩ | ⟨hmid, hend⟩
  · refine hdone hmid ?_
    subst hmid
    rcases hsib with rfl | ⟨-, b, rfl⟩
    · exact absurd rfl hr
    · rw [List.nil_append] at hpost
      rw [← hpost]
      rfl
  · subst hmid hend
    have ha : after p = [] := by simpa using hpost
    rcases hsib with rfl | ⟨-, b, rfl⟩
    · exact hdone rfl rfl
    · -- The right child is a leaf, and the next round erases it.
      have hlb : t1.toList = before p ++ b :: [] := by
        rw [hl1, ha]
        simp
      obtain ⟨x2, m2, t2, hm2, hwf2, -, hl2⟩ := eraseAt_spec hwf1 hlb
      have hbnil : b.addr ≠ m.nil := (h.rep.get_of_mem (by rw [RbPath.toList_plug_node]; simp)).1
      have hx2 : x2 = m.nil := by
        rcases hleaf with hnil | ⟨q, b', hb', rfl⟩
        · exact absurd hnil hbnil
        · obtain ⟨x3, m3, t3, hm3, -, -, -, -, hrep3⟩ := eraseAt_next hwf1
          rw [← hb', treeAddr_node, hm2] at hm3
          obtain ⟨rfl, -⟩ := Prod.mk.inj (Except.ok.inj hm3)
          rw [← hnil1]
          exact hrep3.eq_right rfl
      subst hx2
      have hrun : eraseLoop 3 m e.addr m.nil = .ok m2 := by
        rw [eraseLoop_succ (show e.addr ≠ m.nil from hne) hm1, treeAddr_node,
          eraseLoop_succ hbnil hm2, eraseLoop_last]
      refine rangeErased_of_loop h hpost hrun hwf2 ?_
      rw [hl2]
      simp

/-- If the range has one element, the one that `Erase(position)` returns is next to it. -/
theorem nearEnd_of_last (h : m.WF compare (plug p (.node c l e r))) {x : Iterator}
    (hrep : Replacement m.nil l r x) (hx : x = headAddr m.nil (r.toList ++ after p)) :
    NearEnd l r [] (r.toList ++ after p) := by
  have hl := RbPath.toList_plug_node p c l r e
  have hl' : (plug p (.node c l e r)).toList =
      (before p ++ l.toList ++ [e]) ++ (r.toList ++ after p) := by
    rw [hl]
    simp
  cases hrep with
  | right r =>
    refine ⟨rfl, ?_⟩
    by_cases hr : r = .nil
    · subst hr
      exact Or.inr ⟨rfl, (h.rep.headAddr_eq_nil hl').mp hx.symm⟩
    · exact Or.inl ⟨rfl, hr⟩
  | left hne =>
    -- The left child lies in front of the range.
    exfalso
    obtain ⟨b, hb, hbx⟩ := exists_mem_treeAddr m.nil hne
    rw [hbx] at hx
    cases hpost : (RbTree.nil : RbTree (Entry K V)).toList ++ after p with
    | nil =>
      rw [hpost] at hx
      exact (h.rep.get_of_mem (e := b) (by rw [hl]; simp [hb])).1 hx
    | cons a post =>
      rw [hpost] at hx hl'
      exact h.rep.addr_ne hl' (a := b) (b := a) (by simp [hb]) List.mem_cons_self hx
  | @next _ ctx cy y u hne hctx =>
    -- The right child of the successor `y` lies behind `y`.
    exfalso
    have hy := toList_successor (c := cy) (y := y) (u := u) hctx
    have hly : (plug p (.node c l e (plug ctx (.node cy .nil y u)))).toList =
        (before p ++ l.toList ++ [e, y]) ++ (u.toList ++ after ctx ++ after p) := by
      rw [hl, hy]
      simp
    rw [hy] at hx
    have hyx : treeAddr m.nil u = y.addr := hx
    by_cases hu : u = .nil
    · subst hu
      exact (h.rep.get_of_mem (e := y) (by rw [hly]; simp)).1 hyx.symm
    · obtain ⟨b, hb, hbx⟩ := exists_mem_treeAddr m.nil hu
      rw [hbx] at hyx
      exact h.rep.addr_ne hly (a := y) (b := b) (by simp) (by simp [hb]) hyx.symm

/-- The erasure of a range keeps what lies in front of it. The two trees may differ, but they hold
the same elements. -/
theorem kept_of_front {m : Map K V} {t t0 : RbTree (Entry K V)} (h : m.Rep t) (h0 : m.Rep t0)
    {front range : List (Entry K V)} (hl : t.toList = front ++ range) {k : Entry K V}
    (hk : k ∈ front) :
    ∃ k0 ∈ t0.toList.filter (fun e => e.addr ∉ range.map Entry.addr), k0.addr = k.addr := by
  have hkt : k.addr ∈ treeAddrs t := List.mem_map_of_mem (by rw [hl]; simp [hk])
  obtain ⟨k0, hk0, hk0a⟩ := List.mem_map.mp (h0.element_iff.mp (h.element_iff.mpr hkt))
  have hout : k0.addr ∉ range.map Entry.addr := by
    intro hm
    obtain ⟨k1, hk1, hk1a⟩ := List.mem_map.mp hm
    exact h.addr_ne hl hk hk1 (hk0a.symm.trans hk1a.symm)
  exact ⟨k0, List.mem_filter.mpr ⟨hk0, decide_eq_true hout⟩, hk0a⟩

/-- The address of an entry that was erased is not in the tree any more. -/
theorem erased_notMem {m : Map K V} {t t' : RbTree (Entry K V)} (h : m.Rep t)
    {pre post : List (Entry K V)} {b : Entry K V} (hl : t.toList = pre ++ b :: post)
    (hl' : t'.toList = pre ++ post) : b.addr ∉ treeAddrs t' := by
  have hnodup := h.nodup
  unfold treeAddrs at hnodup ⊢
  rw [hl, List.map_append, List.map_cons, List.nodup_middle, List.nodup_cons] at hnodup
  rw [hl', List.map_append]
  exact hnodup.1

/-- Only such a range is erased. -/
theorem nearEnd_of_rangeErased (h : m.WF compare (plug p (.node c l e r)))
    (hpost : r.toList ++ after p = mid ++ post)
    (her : RangeErased compare m e.addr (headAddr m.nil post) (e.addr :: mid.map Entry.addr)) :
    NearEnd l r mid post := by
  have hl := RbPath.toList_plug_node p c l r e
  have hne := first_ne_last h hpost
  have hlp : (plug p (.node c l e r)).toList = (before p ++ l.toList ++ e :: mid) ++ post := by
    rw [hl, hpost]
    simp
  obtain ⟨fuel, m', t0, t', hrep0, hrun, hwf', hl', hsize'⟩ := her
  obtain ⟨x, m1, t1, hm1, hwf1, hnil1, hl1, hleaf, hrep⟩ := eraseAt_next h
  have hlen1 : m1.size + 1 = m.size := by
    rw [hwf1.size, h.size, hl, hl1]
    simp only [List.length_append, List.length_cons]
    omega
  simp only [List.length_cons, List.length_map] at hsize'
  have hloop := eraseLoop_of_eraseRange hrun
  cases fuel with
  | zero => cases hloop
  | succ fuel =>
    rw [eraseLoop_succ hne hm1 fuel] at hloop
    have hnull : m1.nil ≠ nullptr := hwf1.rep.nil_ne_nullptr
    have hlast : headAddr m.nil post ≠ nullptr := h.rep.headAddr_ne_nullptr hlp
    rw [← hnil1] at hleaf
    rcases eraseLoop_leaf hwf1 hleaf hnull hlast hloop with ⟨hx, rfl⟩ | hx
    · -- One round: the range has one element, and `x` is the next one.
      obtain rfl : mid = [] := List.length_eq_zero_iff.mp (by omega)
      rw [List.nil_append] at hpost
      subst hpost
      exact nearEnd_of_last h hrep hx
    · -- Two rounds: the range has two elements and ends at `End()`.
      obtain ⟨hxl, hend, t2, q, b, hxb, hwf2, hlq, hl2⟩ := hx
      rw [hnil1] at hend
      obtain rfl : post = [] := (h.rep.headAddr_eq_nil hlp).mp hend
      obtain ⟨a, rfl⟩ : ∃ a, mid = [a] := by
        refine List.length_eq_one_iff.mp ?_
        have h1 := hwf1.size
        have h2 := hwf2.size
        rw [hlq] at h1
        rw [hl2] at h2
        simp only [List.length_append, List.length_cons] at h1 h2
        omega
      have hxnil : x ≠ m.nil := fun hx => hxl (hx.trans hend.symm)
      rw [List.append_nil] at hpost
      cases hrep with
      | right r =>
        refine ⟨rfl, Or.inr ⟨?_, rfl⟩⟩
        have hr : r ≠ .nil := fun hr => hxnil (by rw [hr, treeAddr_nil])
        obtain ⟨k, hk, -⟩ := exists_mem_treeAddr m.nil hr
        obtain ⟨s, s', hs⟩ := List.exists_cons_of_ne_nil (List.ne_nil_of_mem hk)
        rw [hs] at hpost ⊢
        obtain ⟨rfl, hs'⟩ := List.cons.inj hpost
        rw [(List.append_eq_nil_iff.mp hs').1]
      | left hlne =>
        -- The left child was erased, although it lies in front of the range.
        exfalso
        obtain ⟨k, hk, hkx⟩ := exists_mem_treeAddr m.nil hlne
        -- An entry in front of the range stays, so `x` is still an address of the tree.
        have hlk : (plug p (.node c l e .nil)).toList = (before p ++ l.toList) ++ (e :: [a]) := by
          rw [hlp]
          simp
        obtain ⟨k0, hkept, hk0a⟩ :=
          kept_of_front h.rep hrep0 hlk (List.mem_append_right _ hk)
        have hk2 : b.addr ∈ treeAddrs t2 := by
          rw [← hxb, hkx, ← hk0a]
          have hkt' : k0.addr ∈ treeAddrs t' := by
            refine List.mem_map_of_mem ?_
            rw [hl']
            exact hkept
          exact hwf2.rep.element_iff.mp (hwf'.rep.element_iff.mpr hkt')
        exact erased_notMem hwf1.rep hlq hl2 hk2
      | @next _ ctx cy y u hlne hctx =>
        -- The range holds the successor only, which has no right child then.
        exfalso
        rw [toList_successor hctx] at hpost
        have hrest : u.toList ++ after ctx ++ after p = [] := (List.cons.inj hpost).2
        have hu : u = .nil := by
          by_contra hu
          obtain ⟨k, hk, -⟩ := exists_mem_treeAddr m.nil hu
          simp only [List.append_assoc, List.append_eq_nil_iff] at hrest
          rw [hrest.1] at hk
          cases hk
        exact hxnil (by rw [hu, treeAddr_nil])

/-- `Erase(position)` returns the successor exactly at a node without a left child that has a
right child or is the last one. -/
theorem WF.nextReturned_iff (h : m.WF compare (plug p (.node c l e r))) :
    m.NextReturned e.addr ↔ m.PositionHandled e.addr := by
  have hl := RbPath.toList_plug_node p c l r e
  have hsize : (plug p (.node c l e r)).toList.length ≤ m.size := Nat.le_of_eq h.size.symm
  have hn := h.rep.node_join (d := .left)
  have hinc := increment_spec h.rep hsize hl
  obtain ⟨x, m1, t1, hm1, -, -, -, -, hrep⟩ := eraseAt_next h
  constructor
  · rintro ⟨it, m', hit, hm'⟩
    rw [hinc] at hit
    rw [hm1] at hm'
    obtain ⟨hx, -⟩ := Prod.mk.inj (Except.ok.inj hm')
    have hnear := nearEnd_of_last h hrep (hx.trans (Except.ok.inj hit).symm)
    obtain ⟨rfl, hcase⟩ := hnear
    refine ⟨_, hn, rfl, ?_⟩
    rcases hcase with ⟨-, hr⟩ | ⟨-, hend⟩
    · left
      exact fun hright => hr (h.rep.right_eq_nil.mp hright)
    · right
      rw [hend] at hl
      exact maximum_spec h.rep hsize hl
  · rintro ⟨n, hn', hleft, hcase⟩
    obtain rfl := Except.ok.inj (hn.symm.trans hn')
    obtain rfl : l = .nil := h.rep.left_eq_nil.mp hleft
    refine ⟨x, m1, ?_, hm1⟩
    rw [hinc, hrep.eq_right rfl]
    rcases h.redBlack.sibling_of_leaf (d := .left) with rfl | ⟨-, b, rfl⟩
    · rcases hcase with hright | hmax
      · exact absurd rfl hright
      · rw [after_eq_nil_of_maximum h.rep hsize hl hmax]
        rfl
    · rfl

end

/-- The ranges that `Erase(first, last)` handles. -/
theorem WF.rangeErased_iff {m : Map K V} {t : RbTree (Entry K V)} (h : m.WF compare t)
    {first last : Iterator} {range : List Iterator} (hfirst : first = m.endIt ∨ m.Element first)
    (hr : m.Reaches first last range) :
    RangeErased compare m first last range ↔ m.RangeHandled first last := by
  have hsize : t.toList.length ≤ m.size := Nat.le_of_eq h.size.symm
  obtain ⟨pre, rest, hl, hhead⟩ : ∃ pre rest, t.toList = pre ++ rest ∧
      first = headAddr m.nil rest := by
    rcases hfirst with hend | hel
    · exact ⟨t.toList, [], by simp, hend⟩
    · obtain ⟨e, he, rfl⟩ := List.mem_map.mp (h.rep.element_iff.mp hel)
      obtain ⟨pre, post, hl⟩ := List.append_of_mem he
      exact ⟨pre, e :: post, hl, rfl⟩
  obtain ⟨mid, post, rfl, rfl, rfl⟩ := hr.split h.rep hsize hl hhead
  cases mid with
  | nil =>
    subst hhead
    refine ⟨fun _ => Or.inl rfl, fun _ => ⟨1, m, t, t, h.rep, ?_, h, ?_, rfl⟩⟩
    · simp only [eraseRange, List.nil_append, eraseLoop_last, bind, Except.bind, pure, Except.pure]
    · simp
  | cons e mid =>
    rw [show first = e.addr from hhead]
    rw [List.cons_append] at hl
    obtain ⟨p, c, l, r, rfl, rfl, hpost⟩ := RbPath.exists_plug_of_toList hl
    rw [rangeHandled_iff h hpost.symm]
    exact ⟨nearEnd_of_rangeErased h hpost.symm, rangeErased_of_nearEnd h hpost.symm⟩

end Map

/-- In a reachable map `Erase(first, last)` erases a range, and `Erase(position)` returns the
successor, exactly in the handled cases. -/
theorem World.Reachable.eraseRange_iff [StrictWeak compare] [Inhabited K] [Inhabited V]
    {w : World K V} (h : w.Reachable compare) {i : Nat} {m : Map K V} (hm : w.map i = some m) :
    (∀ first last range, (first = m.endIt ∨ m.Element first) → m.Reaches first last range →
        (Map.RangeErased compare m first last range ↔ m.RangeHandled first last)) ∧
      ∀ position, m.Element position →
        (m.NextReturned position ↔ m.PositionHandled position) := by
  obtain ⟨ts, hinv⟩ := h.inv
  have hwf := hinv.wf i m hm
  refine ⟨fun first last range hfirst hr => hwf.rangeErased_iff hfirst hr, ?_⟩
  intro position hel
  obtain ⟨e, he, rfl⟩ := List.mem_map.mp (hwf.rep.element_iff.mp hel)
  obtain ⟨pre, post, hl⟩ := List.append_of_mem he
  obtain ⟨p, c, l, r, heq, -, -⟩ := RbPath.exists_plug_of_toList hl
  rw [heq] at hwf
  exact hwf.nextReturned_iff

/-- In the map with the keys 3, 5 and 7 the range of 5 alone is not erased. The range of 7 is,
and `Erase` returns its successor there. -/
theorem World.sample_eraseRange :
    ¬ Map.RangeErased (fun a b => decide (a < b)) World.sampleMap 2 3 [2] ∧
      Map.RangeErased (fun a b => decide (a < b)) World.sampleMap 3 1 [3] ∧
      World.sampleMap.NextReturned 3 := by
  have h := World.sample_reachable.eraseRange_iff (i := 0) (m := World.sampleMap) rfl
  have h2 : World.sampleMap.Element 2 := .root (by decide)
  have h3 : World.sampleMap.Element 3 := .child .right h2 rfl (by decide)
  refine ⟨?_, ?_, ?_⟩
  · rw [h.1 2 3 [2] (Or.inr h2) (.step (by decide) rfl (.refl 3))]
    rintro (heq | ⟨n, hn, hleft, -⟩)
    · cases heq
    · cases hn
      cases hleft
  · rw [h.1 3 1 [3] (Or.inr h3) (.step (by decide) rfl (.refl 1))]
    exact Or.inr ⟨_, rfl, rfl, Or.inr ⟨rfl, Or.inl rfl⟩⟩
  · rw [h.2 3 h3]
    exact ⟨_, rfl, rfl, Or.inr rfl⟩

/-- In the map with the keys 3, 5 and 7 the range from 3 to 7 faults after the first erasure,
which returned `End()` and not the successor. -/
theorem World.sample_eraseRange_fault :
    World.sample.Reachable (fun a b => decide (a < b)) ∧
      World.sample.map 0 = some World.sampleMap ∧ World.sampleMap.Reaches 4 3 [4, 2] ∧
      (∀ fuel, Map.eraseRange (fuel + 3) World.sampleMap 4 3 = .error .deref) ∧
      ¬ Map.RangeErased (fun a b => decide (a < b)) World.sampleMap 4 3 [4, 2] ∧
      ¬ World.sampleMap.NextReturned 4 := by
  obtain ⟨ts, hinv⟩ := World.sample_reachable.inv
  have hwf := hinv.wf 0 World.sampleMap rfl
  have h2 : World.sampleMap.Element 2 := .root (by decide)
  have h4 : World.sampleMap.Element 4 := .child .left h2 rfl (by decide)
  have hr : World.sampleMap.Reaches 4 3 [4, 2] :=
    .step (by decide) rfl (.step (by decide) rfl (.refl 3))
  refine ⟨World.sample_reachable, rfl, hr, fun _ => rfl, ?_, ?_⟩
  · rw [hwf.rangeErased_iff (Or.inr h4) hr]
    rintro (heq | ⟨n, hn, -, ⟨hright, -⟩ | ⟨hend, -⟩⟩)
    · cases heq
    · cases hn
      exact hright rfl
    · cases hend
  · rintro ⟨it, m', hit, hm'⟩
    cases hit
    cases hm'

end KernelEventsTrace.Driver.Std
