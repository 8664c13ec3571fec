import KernelEventsTrace.Driver.Std.SetRun
import KernelEventsTrace.Lib.Simulation

/-!
# `KernelEventsTrace.Proofs.Set.Simulation`: the tree code of `Set` simulates that of `Map`

The two containers have the same tree code, written twice: `Map` has one function for both sides
where `Set` has two. Each lemma compares one function of `Set` with the one of `Map`, statement by
statement. A read gives nodes with paired links (`Same.node`), a write keeps the memories paired
(`Same.update`), and a test of pointers has the same outcome on both sides (`Pairing.eq_iff`).
-/

set_option autoImplicit false

namespace KernelEventsTrace.Driver.Std

open KernelEventsTrace.RedBlack (Side)
open KernelEventsTrace.Simulation

variable {K V : Type}

/-- A pairing of the addresses of two memories: one to one, with the null pointers paired, and
closed under the next allocation. -/
structure Pairing (β : Ptr → Ptr → Prop) : Prop where
  unique : Relator.BiUnique β
  null : β nullptr nullptr
  next : ∀ p q : Nat, 0 < p → β p q → β (p + 1) (q + 1)

/-- Two nodes with the same key and colour, and paired links. -/
structure SameNode (β : Ptr → Ptr → Prop) (n : Node K V) (n' : Node K Unit) : Prop where
  key : n.key = n'.key
  isRed : n.isRed = n'.isRed
  parent : β n.parent n'.parent
  left : β n.left n'.left
  right : β n.right n'.right

/-- A map and a set with the same nodes at paired addresses. -/
structure Same (β : Ptr → Ptr → Prop) (m : Map K V) (s : Set K) : Prop where
  root : β m.root s.root
  nil : β m.nil s.nil
  size : m.size = s.size
  next : β m.heap.next s.heap.next
  cells : ∀ p q, β p q → Option.Rel (SameNode β) (m.heap.get p) (s.heap.get q)

/-- A container and a pointer, on both sides. -/
def SameAt (β : Ptr → Ptr → Prop) (a : Map K V × Ptr) (b : Set K × Ptr) : Prop :=
  Same β a.1 b.1 ∧ β a.2 b.2

section
variable {β : Ptr → Ptr → Prop} (hβ : Pairing β)

include hβ

/-- Paired pointers compare alike. -/
theorem Pairing.eq_iff {p p' q q' : Ptr} (hp : β p p') (hq : β q q') : p = q ↔ p' = q' :=
  Relator.rel_eq hβ.unique hp hq

omit hβ in
/-- Paired addresses hold a node both or neither. -/
theorem Same.cell {m : Map K V} {s : Set K} (h : Same β m s) {p q : Ptr} (hp : β p q) :
    (m.heap.get p = none ∧ s.heap.get q = none) ∨
      ∃ n n', m.heap.get p = some n ∧ s.heap.get q = some n' ∧ SameNode β n n' := by
  have hcell := h.cells p q hp
  cases hm : m.heap.get p with
  | none =>
    rw [hm] at hcell
    cases hs : s.heap.get q with
    | none => exact Or.inl ⟨rfl, rfl⟩
    | some n' =>
      rw [hs] at hcell
      cases hcell
  | some n =>
    rw [hm] at hcell
    cases hs : s.heap.get q with
    | none =>
      rw [hs] at hcell
      cases hcell
    | some n' =>
      rw [hs] at hcell
      cases hcell with
      | some hn => exact Or.inr ⟨n, n', rfl, rfl, hn⟩

omit hβ in
/-- A read through paired pointers. -/
theorem Same.node {m : Map K V} {s : Set K} (h : Same β m s) {p q : Ptr} (hp : β p q) :
    Sim (SameNode β) (m.node p) (s.node q) := by
  unfold Map.node Set.node
  rcases h.cell hp with ⟨hm, -⟩ | ⟨n, n', hm, hs, hn⟩
  · rw [hm]
    exact Sim.error
  · rw [hm, hs]
    exact Sim.ok hn

/-- A write, or a deletion, through paired pointers that point to nodes. -/
theorem Same.put {m : Map K V} {s : Set K} (h : Same β m s) {p q : Ptr} (hp : β p q)
    {n : Node K V} {n' : Node K Unit} (hn : m.heap.get p = some n) (hn' : s.heap.get q = some n')
    {c : Option (Node K V)} {c' : Option (Node K Unit)} (hc : Option.Rel (SameNode β) c c') :
    Same β { m with heap := m.heap.put p c } { s with heap := s.heap.put q c' } := by
  refine ⟨h.root, h.nil, h.size, ?_, fun a b hab => ?_⟩
  · show β (m.heap.put p c).next (s.heap.put q c').next
    rw [Heap.next_put, Heap.next_put]
    exact h.next
  · show Option.Rel _ ((m.heap.put p c).get a) ((s.heap.put q c').get b)
    rw [Heap.get_put_of_get hn, Heap.get_put_of_get hn']
    -- The pairing is one to one, so `a` is the written address exactly if `b` is.
    by_cases ha : a = p
    · rw [if_pos ha, if_pos ((hβ.eq_iff hab hp).mp ha)]
      exact hc
    · rw [if_neg ha, if_neg fun hb => ha ((hβ.eq_iff hab hp).mpr hb)]
      exact h.cells a b hab

/-- A write through paired pointers. -/
theorem Same.update {m : Map K V} {s : Set K} (h : Same β m s) {p q : Ptr} (hp : β p q)
    {f : Node K V → Node K V} {f' : Node K Unit → Node K Unit}
    (hf : ∀ n n', SameNode β n n' → SameNode β (f n) (f' n')) :
    Sim (Same β) (m.update p f) (s.update q f') := by
  unfold Map.update Set.update Map.node Set.node
  rcases h.cell hp with ⟨hm, -⟩ | ⟨n, n', hm, hs, hn⟩
  · rw [hm]
    exact Sim.error
  · rw [hm, hs]
    exact Sim.ok (h.put hβ hp hm hs (.some (hf n n' hn)))

section
variable {m : Map K V} {s : Set K} (h : Same β m s) {p q p' q' : Ptr}

include h

omit hβ in
/-- The loops get the same fuel. -/
theorem Same.fuel : s.fuel = m.fuel := congrArg (· + 2) h.size.symm

/-- A write to the colour of a node. -/
theorem Same.setRed (hp : β p p') {c c' : Bool} (hc : c = c') :
    Sim (Same β) (m.setRed p c) (s.setRed p' c') :=
  h.update hβ hp fun _ _ hn => ⟨hn.key, hc, hn.parent, hn.left, hn.right⟩

/-- A write to the parent of a node. -/
theorem Same.setParent (hp : β p p') (hq : β q q') :
    Sim (Same β) (m.setParent p q) (s.setParent p' q') :=
  h.update hβ hp fun _ _ hn => ⟨hn.key, hn.isRed, hq, hn.left, hn.right⟩

/-- A write to the left child. `Map` has one function for both sides. -/
theorem Same.setLeft (hp : β p p') (hq : β q q') :
    Sim (Same β) (m.setChild .left p q) (s.setLeft p' q') :=
  h.update hβ hp fun _ _ hn => ⟨hn.key, hn.isRed, hn.parent, hq, hn.right⟩

/-- A write to the right child. -/
theorem Same.setRight (hp : β p p') (hq : β q q') :
    Sim (Same β) (m.setChild .right p q) (s.setRight p' q') :=
  h.update hβ hp fun _ _ hn => ⟨hn.key, hn.isRed, hn.parent, hn.left, hq⟩

/-- `Set` spells the test for the sentinel out where `Map` has a function. -/
theorem Same.setParentUnlessNil (hp : β p p') (hq : β q q') :
    Sim (Same β) (m.setParentUnlessNil p q)
      (if p' ≠ s.nil then s.setParent p' q' else pure s) :=
  Sim.ite (not_congr (hβ.eq_iff hp h.nil)) (h.setParent hβ hp hq) (Sim.pure h)

/-! ### Rotations -/

/-- `relink` puts one node in the place of another, below its parent. -/
theorem Same.relink (hp : β p p') (hq : β q q') :
    Sim (Same β) (m.relink p q) (s.relink p' q') := by
  unfold Map.relink Set.relink
  refine Sim.bind (h.node hp) fun n n' hn => ?_
  -- At the root only `root_` changes.
  refine Sim.ite (hβ.eq_iff hn.parent h.nil) (Sim.pure ⟨hq, h.nil, h.size, h.next, h.cells⟩) ?_
  refine Sim.bind (h.node hn.parent) fun np np' hnp => ?_
  exact Sim.ite (hβ.eq_iff hp hnp.left) (h.setLeft hβ hn.parent hq) (h.setRight hβ hn.parent hq)

/-- The two rotations of `Set` are the rotation of `Map` to either side. -/
theorem Same.leftRotate (hp : β p p') :
    Sim (Same β) (Map.rotate .left m p) (s.leftRotate p') := by
  unfold Map.rotate Set.leftRotate
  refine Sim.bind (h.node hp) fun nx nx' hx => ?_
  refine Sim.guard ?_
  refine Sim.bind (h.node hx.right) fun ny ny' hy => ?_
  refine Sim.bind (h.setRight hβ hp hy.left) fun m s h => ?_
  refine Sim.bind (h.node hx.right) fun ny ny' hy => ?_
  refine Sim.bind_ite (h.setParentUnlessNil hβ hy.left hp) fun m s h => ?_
  refine Sim.bind (h.node hp) fun nx2 nx2' hx2 => ?_
  refine Sim.bind (h.setParent hβ hx.right hx2.parent) fun m s h => ?_
  refine Sim.bind (h.relink hβ hp hx.right) fun m s h => ?_
  refine Sim.bind (h.setLeft hβ hx.right hp) fun m s h => ?_
  exact h.setParent hβ hp hx.right

/-- A rotation to the right. -/
theorem Same.rightRotate (hp : β p p') :
    Sim (Same β) (Map.rotate .right m p) (s.rightRotate p') := by
  unfold Map.rotate Set.rightRotate
  refine Sim.bind (h.node hp) fun ny ny' hy => ?_
  refine Sim.guard ?_
  refine Sim.bind (h.node hy.left) fun nx nx' hx => ?_
  refine Sim.bind (h.setLeft hβ hp hx.right) fun m s h => ?_
  refine Sim.bind (h.node hy.left) fun nx nx' hx => ?_
  refine Sim.bind_ite (h.setParentUnlessNil hβ hx.right hp) fun m s h => ?_
  refine Sim.bind (h.node hp) fun ny2 ny2' hy2 => ?_
  refine Sim.bind (h.setParent hβ hy.left hy2.parent) fun m s h => ?_
  refine Sim.bind (h.relink hβ hp hy.left) fun m s h => ?_
  refine Sim.bind (h.setRight hβ hy.left hp) fun m s h => ?_
  exact h.setParent hβ hp hy.left

/-! ### Insertion fix-up -/

/-- A red uncle. -/
theorem Same.insertRecolor (hp : β p p') (hq : β q q') :
    Sim (SameAt β) (m.insertRecolor p q) (s.insertRecolor p' q') := by
  unfold Map.insertRecolor Set.insertRecolor
  refine Sim.bind (h.node hp) fun nz nz' hz => ?_
  refine Sim.bind (h.setRed hβ hz.parent rfl) fun m s h => ?_
  refine Sim.bind (h.setRed hβ hq rfl) fun m s h => ?_
  refine Sim.bind (h.node hz.parent) fun nzp nzp' hzp => ?_
  refine Sim.bind (h.setRed hβ hzp.parent rfl) fun m s h => ?_
  exact Sim.pure ⟨h, hzp.parent⟩

/-- A node on the inner side of a left parent. -/
theorem Same.insertInnerLeft (hp : β p p') :
    Sim (SameAt β) (Map.insertInner .left m p) (s.insertInnerLeft p') := by
  unfold Map.insertInner Set.insertInnerLeft
  refine Sim.bind (h.node hp) fun nz nz' hz => ?_
  refine Sim.bind (h.node hz.parent) fun nzp nzp' hzp => ?_
  refine Sim.ite (hβ.eq_iff hp hzp.right) ?_ (Sim.pure ⟨h, hp⟩)
  exact Sim.bind (h.leftRotate hβ hz.parent) fun m s h => Sim.pure ⟨h, hz.parent⟩

/-- A node on the inner side of a right parent. -/
theorem Same.insertInnerRight (hp : β p p') :
    Sim (SameAt β) (Map.insertInner .right m p) (s.insertInnerRight p') := by
  unfold Map.insertInner Set.insertInnerRight
  refine Sim.bind (h.node hp) fun nz nz' hz => ?_
  refine Sim.bind (h.node hz.parent) fun nzp nzp' hzp => ?_
  refine Sim.ite (hβ.eq_iff hp hzp.left) ?_ (Sim.pure ⟨h, hp⟩)
  exact Sim.bind (h.rightRotate hβ hz.parent) fun m s h => Sim.pure ⟨h, hz.parent⟩

/-- A node on the outer side of a left parent. -/
theorem Same.insertOuterLeft (hp : β p p') :
    Sim (Same β) (Map.insertOuter .left m p) (s.insertOuterLeft p') := by
  unfold Map.insertOuter Set.insertOuterLeft
  refine Sim.bind (h.node hp) fun nz nz' hz => ?_
  refine Sim.bind (h.setRed hβ hz.parent rfl) fun m s h => ?_
  refine Sim.bind (h.node hz.parent) fun nzp nzp' hzp => ?_
  refine Sim.bind (h.setRed hβ hzp.parent rfl) fun m s h => ?_
  exact h.rightRotate hβ hzp.parent

/-- A node on the outer side of a right parent. -/
theorem Same.insertOuterRight (hp : β p p') :
    Sim (Same β) (Map.insertOuter .right m p) (s.insertOuterRight p') := by
  unfold Map.insertOuter Set.insertOuterRight
  refine Sim.bind (h.node hp) fun nz nz' hz => ?_
  refine Sim.bind (h.setRed hβ hz.parent rfl) fun m s h => ?_
  refine Sim.bind (h.node hz.parent) fun nzp nzp' hzp => ?_
  refine Sim.bind (h.setRed hβ hzp.parent rfl) fun m s h => ?_
  exact h.leftRotate hβ hzp.parent

/-- A round of the loop below a left parent. -/
theorem Same.insertFixupLeft (hp : β p p') :
    Sim (SameAt β) (Map.insertFixupStep .left m p) (s.insertFixupLeft p') := by
  unfold Map.insertFixupStep Set.insertFixupLeft
  refine Sim.bind (h.node hp) fun nz nz' hz => ?_
  refine Sim.bind (h.node hz.parent) fun nzp nzp' hzp => ?_
  refine Sim.bind (h.node hzp.parent) fun nzpp nzpp' hzpp => ?_
  refine Sim.bind (h.node hzpp.right) fun ny ny' hy => ?_
  -- A red uncle is recoloured, and the loop goes on above. Otherwise there are rotations.
  refine Sim.ite (by rw [hy.isRed]) (h.insertRecolor hβ hp hzpp.right) ?_
  refine Sim.bind (h.insertInnerLeft hβ hp) fun a a' ha => ?_
  exact Sim.bind (ha.1.insertOuterLeft hβ ha.2) fun m s h => Sim.pure ⟨h, ha.2⟩

/-- A round of the loop below a right parent. -/
theorem Same.insertFixupRight (hp : β p p') :
    Sim (SameAt β) (Map.insertFixupStep .right m p) (s.insertFixupRight p') := by
  unfold Map.insertFixupStep Set.insertFixupRight
  refine Sim.bind (h.node hp) fun nz nz' hz => ?_
  refine Sim.bind (h.node hz.parent) fun nzp nzp' hzp => ?_
  refine Sim.bind (h.node hzp.parent) fun nzpp nzpp' hzpp => ?_
  refine Sim.bind (h.node hzpp.left) fun ny ny' hy => ?_
  refine Sim.ite (by rw [hy.isRed]) (h.insertRecolor hβ hp hzpp.left) ?_
  refine Sim.bind (h.insertInnerRight hβ hp) fun a a' ha => ?_
  exact Sim.bind (ha.1.insertOuterRight hβ ha.2) fun m s h => Sim.pure ⟨h, ha.2⟩

omit h in
/-- The induction is on the fuel. Both loops test the colour of the same parent. -/
theorem Same.insertFixupLoop (fuel : Nat) : ∀ {m : Map K V} {s : Set K} {p p' : Ptr},
    Same β m s → β p p' →
    Sim (Same β) (Map.insertFixupLoop fuel m p) (Set.insertFixupLoop fuel s p') := by
  induction fuel with
  | zero => exact fun _ _ => Sim.error
  | succ fuel ih =>
    intro m s p p' h hp
    unfold Map.insertFixupLoop Set.insertFixupLoop
    refine Sim.bind (h.node hp) fun nz nz' hz => ?_
    refine Sim.bind (h.node hz.parent) fun nzp nzp' hzp => ?_
    refine Sim.ite (by rw [hzp.isRed]) ?_ (Sim.pure h)
    refine Sim.bind (h.node hz.parent) fun nzp nzp' hzp => ?_
    refine Sim.bind (h.node hzp.parent) fun nzpp nzpp' hzpp => ?_
    refine Sim.ite_bind (Sim.ite (hβ.eq_iff hz.parent hzpp.left) (h.insertFixupLeft hβ hp)
      (h.insertFixupRight hβ hp)) fun a a' ha => ?_
    exact ih ha.1 ha.2

/-- `InsertFixup` paints the root at the end. -/
theorem Same.insertFixup (hp : β p p') : Sim (Same β) (m.insertFixup p) (s.insertFixup p') := by
  unfold Map.insertFixup Set.insertFixup
  rw [h.fuel]
  refine Sim.bind (Same.insertFixupLoop hβ m.fuel h hp) fun m s h => ?_
  exact h.setRed hβ h.root rfl

/-! ### Deletion fix-up -/

/-- A red sibling on the right. -/
theorem Same.deleteSiblingLeft (hp : β p p') :
    Sim (SameAt β) (Map.deleteSibling .left m p) (s.deleteSiblingLeft p') := by
  unfold Map.deleteSibling Set.deleteSiblingLeft
  refine Sim.bind (h.node hp) fun nx nx' hx => ?_
  refine Sim.bind (h.node hx.parent) fun nxp nxp' hxp => ?_
  refine Sim.bind (h.node hxp.right) fun nw nw' hw => ?_
  -- Only a red sibling is rotated away. The new one is read through `x` again.
  refine Sim.ite (by rw [hw.isRed]) ?_ (Sim.pure ⟨h, hxp.right⟩)
  refine Sim.bind (h.setRed hβ hxp.right rfl) fun m s h => ?_
  refine Sim.bind (h.setRed hβ hx.parent rfl) fun m s h => ?_
  refine Sim.bind (h.leftRotate hβ hx.parent) fun m s h => ?_
  refine Sim.bind (h.node hp) fun nx nx' hx => ?_
  refine Sim.bind (h.node hx.parent) fun nxp nxp' hxp => ?_
  exact Sim.pure ⟨h, hxp.right⟩

/-- A red sibling on the left. -/
theorem Same.deleteSiblingRight (hp : β p p') :
    Sim (SameAt β) (Map.deleteSibling .right m p) (s.deleteSiblingRight p') := by
  unfold Map.deleteSibling Set.deleteSiblingRight
  refine Sim.bind (h.node hp) fun nx nx' hx => ?_
  refine Sim.bind (h.node hx.parent) fun nxp nxp' hxp => ?_
  refine Sim.bind (h.node hxp.left) fun nw nw' hw => ?_
  refine Sim.ite (by rw [hw.isRed]) ?_ (Sim.pure ⟨h, hxp.left⟩)
  refine Sim.bind (h.setRed hβ hxp.left rfl) fun m s h => ?_
  refine Sim.bind (h.setRed hβ hx.parent rfl) fun m s h => ?_
  refine Sim.bind (h.rightRotate hβ hx.parent) fun m s h => ?_
  refine Sim.bind (h.node hp) fun nx nx' hx => ?_
  refine Sim.bind (h.node hx.parent) fun nxp nxp' hxp => ?_
  exact Sim.pure ⟨h, hxp.left⟩

/-- The inner child of the sibling is red, for a node on the left. -/
theorem Same.deleteInnerLeft (hp : β p p') (hq : β q q') :
    Sim (SameAt β) (Map.deleteInner .left m p q) (s.deleteInnerLeft p' q') := by
  unfold Map.deleteInner Set.deleteInnerLeft
  refine Sim.bind (h.node hq) fun nw nw' hw => ?_
  refine Sim.bind (h.node hw.right) fun nf nf' hf => ?_
  refine Sim.ite (by rw [hf.isRed]) ?_ (Sim.pure ⟨h, hq⟩)
  refine Sim.bind (h.node hq) fun nw nw' hw => ?_
  refine Sim.bind (h.setRed hβ hw.left rfl) fun m s h => ?_
  refine Sim.bind (h.setRed hβ hq rfl) fun m s h => ?_
  refine Sim.bind (h.rightRotate hβ hq) fun m s h => ?_
  refine Sim.bind (h.node hp) fun nx nx' hx => ?_
  refine Sim.bind (h.node hx.parent) fun nxp nxp' hxp => ?_
  exact Sim.pure ⟨h, hxp.right⟩

/-- The inner child of the sibling is red, for a node on the right. -/
theorem Same.deleteInnerRight (hp : β p p') (hq : β q q') :
    Sim (SameAt β) (Map.deleteInner .right m p q) (s.deleteInnerRight p' q') := by
  unfold Map.deleteInner Set.deleteInnerRight
  refine Sim.bind (h.node hq) fun nw nw' hw => ?_
  refine Sim.bind (h.node hw.left) fun nf nf' hf => ?_
  refine Sim.ite (by rw [hf.isRed]) ?_ (Sim.pure ⟨h, hq⟩)
  refine Sim.bind (h.node hq) fun nw nw' hw => ?_
  refine Sim.bind (h.setRed hβ hw.right rfl) fun m s h => ?_
  refine Sim.bind (h.setRed hβ hq rfl) fun m s h => ?_
  refine Sim.bind (h.leftRotate hβ hq) fun m s h => ?_
  refine Sim.bind (h.node hp) fun nx nx' hx => ?_
  refine Sim.bind (h.node hx.parent) fun nxp nxp' hxp => ?_
  exact Sim.pure ⟨h, hxp.left⟩

/-- The outer child of the sibling is red, for a node on the left. -/
theorem Same.deleteOuterLeft (hp : β p p') (hq : β q q') :
    Sim (Same β) (Map.deleteOuter .left m p q) (s.deleteOuterLeft p' q') := by
  unfold Map.deleteOuter Set.deleteOuterLeft
  refine Sim.bind (h.node hp) fun nx nx' hx => ?_
  refine Sim.bind (h.node hx.parent) fun nxp nxp' hxp => ?_
  refine Sim.bind (h.setRed hβ hq hxp.isRed) fun m s h => ?_
  refine Sim.bind (h.setRed hβ hx.parent rfl) fun m s h => ?_
  refine Sim.bind (h.node hq) fun nw nw' hw => ?_
  refine Sim.bind (h.setRed hβ hw.right rfl) fun m s h => ?_
  exact h.leftRotate hβ hx.parent

/-- The outer child of the sibling is red, for a node on the right. -/
theorem Same.deleteOuterRight (hp : β p p') (hq : β q q') :
    Sim (Same β) (Map.deleteOuter .right m p q) (s.deleteOuterRight p' q') := by
  unfold Map.deleteOuter Set.deleteOuterRight
  refine Sim.bind (h.node hp) fun nx nx' hx => ?_
  refine Sim.bind (h.node hx.parent) fun nxp nxp' hxp => ?_
  refine Sim.bind (h.setRed hβ hq hxp.isRed) fun m s h => ?_
  refine Sim.bind (h.setRed hβ hx.parent rfl) fun m s h => ?_
  refine Sim.bind (h.node hq) fun nw nw' hw => ?_
  refine Sim.bind (h.setRed hβ hw.left rfl) fun m s h => ?_
  exact h.rightRotate hβ hx.parent

/-- A round of the loop for a node on the left. -/
theorem Same.deleteFixupLeft (hp : β p p') :
    Sim (SameAt β) (Map.deleteFixupStep .left m p) (s.deleteFixupLeft p') := by
  unfold Map.deleteFixupStep Set.deleteFixupLeft
  refine Sim.bind (h.deleteSiblingLeft hβ hp) fun a a' ha => ?_
  obtain ⟨h, hq⟩ := ha
  refine Sim.bind (h.node hq) fun nw nw' hw => ?_
  refine Sim.bind (h.node hq) fun nw2 nw2' hw2 => ?_
  refine Sim.bind (h.node hw.left) fun nl nl' hl => ?_
  refine Sim.bind (h.node hw2.right) fun nr nr' hr => ?_
  refine Sim.ite (by rw [hl.isRed, hr.isRed]) ?_ ?_
  · -- Two black children: the problem moves to the parent.
    refine Sim.bind (h.setRed hβ hq rfl) fun m s h => ?_
    exact Sim.bind (h.node hp) fun nx nx' hx => Sim.pure ⟨h, hx.parent⟩
  · refine Sim.bind (h.deleteInnerLeft hβ hp hq) fun b b' hb => ?_
    exact Sim.bind (hb.1.deleteOuterLeft hβ hp hb.2) fun m s h => Sim.pure ⟨h, h.root⟩

/-- The map code tests the near child first, which is `w->right` here. The set code tests
`w->left` first. -/
theorem Same.deleteFixupRight (hp : β p p') :
    Sim (SameAt β) (Map.deleteFixupStep .right m p) (s.deleteFixupRight p') := by
  unfold Map.deleteFixupStep Set.deleteFixupRight
  refine Sim.bind (h.deleteSiblingRight hβ hp) fun a a' ha => ?_
  obtain ⟨h, hq⟩ := ha
  -- The reads of the two children come in the other order, and none of them writes.
  refine Sim.bind_swap (h.node hq) (h.node hq) fun nw nw' nw2 nw2' hw hw2 => ?_
  refine Sim.bind_swap (h.node hw.right) (h.node hw2.left) fun nr nr' nl nl' hr hl => ?_
  refine Sim.ite (by rw [hl.isRed, hr.isRed, and_comm]) ?_ ?_
  · refine Sim.bind (h.setRed hβ hq rfl) fun m s h => ?_
    exact Sim.bind (h.node hp) fun nx nx' hx => Sim.pure ⟨h, hx.parent⟩
  · refine Sim.bind (h.deleteInnerRight hβ hp hq) fun b b' hb => ?_
    exact Sim.bind (hb.1.deleteOuterRight hβ hp hb.2) fun m s h => Sim.pure ⟨h, h.root⟩

omit h in
/-- The induction is on the fuel. The node that the loop has reached is the same one in both
trees. -/
theorem Same.deleteFixupLoop (fuel : Nat) : ∀ {m : Map K V} {s : Set K} {p p' : Ptr},
    Same β m s → β p p' →
    Sim (SameAt β) (Map.deleteFixupLoop fuel m p) (Set.deleteFixupLoop fuel s p') := by
  induction fuel with
  | zero => exact fun _ _ => Sim.error
  | succ fuel ih =>
    intro m s p p' h hp
    unfold Map.deleteFixupLoop Set.deleteFixupLoop
    refine Sim.bind (h.node hp) fun nx nx' hx => ?_
    refine Sim.ite (and_congr (not_congr (hβ.eq_iff hp h.root)) (by rw [hx.isRed])) ?_
      (Sim.pure ⟨h, hp⟩)
    refine Sim.bind (h.node hp) fun nx nx' hx => ?_
    refine Sim.bind (h.node hx.parent) fun nxp nxp' hxp => ?_
    refine Sim.ite_bind (Sim.ite (hβ.eq_iff hp hxp.left) (h.deleteFixupLeft hβ hp)
      (h.deleteFixupRight hβ hp)) fun a a' ha => ?_
    exact ih ha.1 ha.2

/-- `DeleteFixup` paints the node that the loop ends at. -/
theorem Same.deleteFixup (hp : β p p') : Sim (Same β) (m.deleteFixup p) (s.deleteFixup p') := by
  unfold Map.deleteFixup Set.deleteFixup
  rw [h.fuel]
  refine Sim.bind (Same.deleteFixupLoop hβ m.fuel h hp) fun a a' ha => ?_
  exact ha.1.setRed hβ ha.2 rfl

/-! ### Helper walks -/

/-- `Transplant` puts one node in the place of another. -/
theorem Same.transplant (hp : β p p') (hq : β q q') :
    Sim (Same β) (m.transplant p q) (s.transplant p' q') := by
  unfold Map.transplant Set.transplant
  refine Sim.bind (h.relink hβ hp hq) fun m s h => ?_
  refine Sim.bind (h.node hp) fun n n' hn => ?_
  exact h.setParent hβ hq hn.parent

/-- The walk to the leftmost node only reads. -/
theorem Same.minimumLoop (fuel : Nat) (hp : β p p') :
    Sim β (Map.extremeLoop .left fuel m p) (Set.minimumLoop fuel s p') := by
  induction fuel generalizing p p' with
  | zero => exact Sim.error
  | succ fuel ih =>
    unfold Map.extremeLoop Set.minimumLoop
    refine Sim.bind (h.node hp) fun n n' hn => ?_
    exact Sim.ite (not_congr (hβ.eq_iff hn.left h.nil)) (ih hn.left) (Sim.pure hp)

/-- The node is deleted in both heaps. -/
theorem Same.deleteNode (hp : β p p') : Sim (Same β) (m.deleteNode p) (s.deleteNode p') := by
  unfold Map.deleteNode Set.deleteNode Map.node Set.node
  rcases h.cell hp with ⟨hm, -⟩ | ⟨n, n', hm, hs, -⟩
  · rw [hm]
    exact Sim.error
  · rw [hm, hs]
    exact Sim.ok (h.put hβ hp hm hs .none)

omit h in
/-- The induction is on the fuel. Both trees are deleted from their leaves on. -/
theorem Same.clearNode (fuel : Nat) : ∀ {m : Map K V} {s : Set K} {p p' : Ptr},
    Same β m s → β p p' → Sim (Same β) (Map.clearNode fuel m p) (Set.clearNode fuel s p') := by
  induction fuel with
  | zero => exact fun _ _ => Sim.error
  | succ fuel ih =>
    intro m s p p' h hp
    unfold Map.clearNode Set.clearNode
    refine Sim.ite (not_congr (hβ.eq_iff hp h.nil)) ?_ (Sim.pure h)
    refine Sim.bind (h.node hp) fun n n' hn => ?_
    refine Sim.bind (ih h hn.left) fun m s h => ?_
    refine Sim.bind (h.node hp) fun n n' hn => ?_
    refine Sim.bind (ih h hn.right) fun m s h => ?_
    exact h.deleteNode hβ hp

/-- `Clear` deletes the nodes and leaves the sentinel. -/
theorem Same.clear : Sim (Same β) m.clear s.clear := by
  unfold Map.clear Set.clear
  rw [h.fuel]
  refine Sim.bind (Same.clearNode hβ m.fuel h h.root) fun m s h => ?_
  exact Sim.pure ⟨h.nil, h.nil, rfl, h.next, h.cells⟩

/-! ### Erasure -/

/-- The successor is taken out of its place. -/
theorem Same.detachNext (hp : β p p') (hq : β q q') :
    Sim (Same β) (m.detachNext p q) (s.detachNext p' q') := by
  unfold Map.detachNext Set.detachNext
  refine Sim.bind (h.node hq) fun ny ny' hy => ?_
  refine Sim.bind (h.node hq) fun ny2 ny2' hy2 => ?_
  refine Sim.ite (hβ.eq_iff hy2.parent hp) (h.setParent hβ hy.right hq) ?_
  refine Sim.bind (h.transplant hβ hq hy.right) fun m s h => ?_
  refine Sim.bind (h.node hp) fun nz nz' hz => ?_
  refine Sim.bind (h.setRight hβ hq hz.right) fun m s h => ?_
  refine Sim.bind (h.node hq) fun ny ny' hy => ?_
  exact h.setParent hβ hy.right hq

/-- The successor takes the place of the erased node. -/
theorem Same.replaceBy (hp : β p p') (hq : β q q') :
    Sim (Same β) (m.replaceBy p q) (s.replaceBy p' q') := by
  unfold Map.replaceBy Set.replaceBy
  refine Sim.bind (h.transplant hβ hp hq) fun m s h => ?_
  refine Sim.bind (h.node hp) fun nz nz' hz => ?_
  refine Sim.bind (h.setLeft hβ hq hz.left) fun m s h => ?_
  refine Sim.bind (h.node hq) fun ny ny' hy => ?_
  refine Sim.bind (h.setParent hβ hy.left hq) fun m s h => ?_
  refine Sim.bind (h.node hp) fun nz nz' hz => ?_
  exact h.setRed hβ hq hz.isRed

/-- Taking a node out gives the place where a black node may be missing, and the colour that was
taken away. -/
theorem Same.unlink (hp : β p p') :
    Sim (fun a b => β a.1 b.1 ∧ a.2.1 = b.2.1 ∧ Same β a.2.2 b.2.2) (m.unlink p) (s.unlink p') := by
  unfold Map.unlink Set.unlink
  refine Sim.bind (h.node hp) fun n n' hn => ?_
  refine Sim.ite (hβ.eq_iff hn.left h.nil) ?_ (Sim.ite (hβ.eq_iff hn.right h.nil) ?_ ?_)
  · exact Sim.bind (h.transplant hβ hp hn.right) fun m s h => Sim.pure ⟨hn.right, hn.isRed, h⟩
  · exact Sim.bind (h.transplant hβ hp hn.left) fun m s h => Sim.pure ⟨hn.left, hn.isRed, h⟩
  · -- Two children: the successor takes the place of the node.
    have hmin : Sim β (m.minimum n.right) (s.minimum n'.right) := by
      unfold Map.minimum Set.minimum
      rw [h.fuel]
      exact h.minimumLoop hβ m.fuel hn.right
    refine Sim.bind hmin fun y y' hy => ?_
    refine Sim.bind (h.node hy) fun ny ny' hny => ?_
    refine Sim.bind (h.detachNext hβ hp hy) fun m s h => ?_
    exact Sim.bind (h.replaceBy hβ hp hy) fun m s h => Sim.pure ⟨hny.right, hny.isRed, h⟩

/-- `Erase` at a position gives the next one. -/
theorem Same.eraseAt (hp : β p p') :
    Sim (fun a b => β a.1 b.1 ∧ Same β a.2 b.2) (m.eraseAt p) (s.eraseAt p') := by
  unfold Map.eraseAt Set.eraseAt
  refine Sim.ite (hβ.eq_iff hp h.nil) (Sim.pure ⟨hβ.null, h⟩) ?_
  refine Sim.bind (h.unlink hβ hp) fun a a' ha => ?_
  obtain ⟨hx, hc, h⟩ := ha
  refine Sim.bind (h.deleteNode hβ hp) fun m s h => ?_
  -- `--size_` on both sides.
  have h1 : Same β { m with size := m.size - 1 } { s with size := s.size - 1 } :=
    ⟨h.root, h.nil, congrArg (· - 1) h.size, h.next, h.cells⟩
  refine Sim.bind (R := Same β) ?_ fun m s h => Sim.pure ⟨hx, h⟩
  unfold Map.fixupAfter Set.fixupAfter
  exact Sim.ite (by rw [hc]) (h1.deleteFixup hβ hx) (Sim.ok h1)

end

end

end KernelEventsTrace.Driver.Std
