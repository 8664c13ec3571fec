import KernelEventsTrace.Lib.SpecRun
import KernelEventsTrace.Proofs.Map.Slots

/-!
# `KernelEventsTrace.Proofs.Map.Moved`: a map that was moved from

A move takes the sentinel along with the root, so the source has the null pointer in place of its
sentinel. `Find`, `Count`, `Erase(key)`, `Clear`, `End`, the assignments and the destructor only
compare with it, and find an empty map (`Map.exec_movedFrom`). `Begin` reads through `root_`.
`Insert` and `operator[]` read the parent of the new node, which is null too
(`Map.exec_movedFrom_error`).

`MoveWorld.stepRule` says this of every step of a program: it does what it should on the finite maps
if `Allows` holds, and fails if not. `World.Reachable.moved_iff` says it of every program.
-/

set_option autoImplicit false

namespace KernelEventsTrace.Driver.Std

open KernelEventsTrace.RedBlack
open KernelEventsTrace.OrdMap

variable {K V : Type} {compare : K → K → Bool}

/-- The calls that may make a node. -/
def Op.Inserts : Op K V → Prop
  | .insert _ _ => True
  | .index _ => True
  | .assign _ _ => True
  | _ => False

namespace Map

/-! ### One map -/

/-- A new node cannot be linked into a map without a sentinel. Its parent is the null pointer, and
`InsertFixup` reads the colour of the parent. -/
theorem attach_error {m : Map K V} (hnil : m.nil = nullptr) {z : Ptr} {n : Node K V}
    (hz : m.heap.get z = some n) : attach compare m z nullptr = .error .deref := by
  obtain ⟨m1, hm1, hobj1, -, hget1⟩ := update_spec hz fun k => { k with parent := nullptr }
  have hz1 := hget1 z
  rw [if_pos rfl] at hz1
  have hnil1 : m1.nil = nullptr := (congrArg MapObj.nil hobj1).trans hnil
  -- The new node becomes the root.
  have hbelow : linkBelow compare m1 z nullptr = .ok { m1 with root := z } := if_pos hnil1.symm
  obtain ⟨m2, hm2, -, -, hget2⟩ :=
    update_spec (m := { m1 with root := z }) hz1 (Node.setChild .left m1.nil)
  have hz2 := hget2 z
  rw [if_pos rfl] at hz2
  obtain ⟨m3, hm3, -, -, hget3⟩ := update_spec hz2 (Node.setChild .right m2.nil)
  have hz3 := hget3 z
  rw [if_pos rfl] at hz3
  obtain ⟨m4, hm4, -, -, hget4⟩ := update_spec hz3 fun k => { k with isRed := true }
  have hz4 := hget4 z
  rw [if_pos rfl] at hz4
  have hlink : link compare m z nullptr = .ok m4 := by
    simp only [link, setParent, hm1, hbelow, setChild, hm2, hm3, setRed, hm4, bind, Except.bind]
  have hfixup : m4.insertFixup z = .error .deref := by
    -- The loop starts with `z->parent->is_red`.
    unfold insertFixup fuel insertFixupLoop
    simp only [node_of_get hz4, bind, Except.bind]
    rfl
  simp only [attach, hlink, hfixup, bind, Except.bind]

section
variable (compare) [StrictWeak compare] [Inhabited V] (heap : Heap K V)

/-- Without an insertion, a call on a map that was moved from is a call on the empty map. -/
theorem exec_movedFrom {op : Op K V} (h : ¬ op.Inserts) :
    exec compare { movedFrom with heap := heap } op =
        .ok ((Spec.exec (FMap.empty : FMap compare V) op).1, { movedFrom with heap := heap }) ∧
      (Spec.exec (FMap.empty : FMap compare V) op).2 = FMap.empty := by
  cases op with
  | insert key val => exact absurd trivial h
  | index key => exact absurd trivial h
  | assign key val => exact absurd trivial h
  | erase key => exact ⟨rfl, FMap.erase_empty key⟩
  | find key => exact ⟨rfl, rfl⟩
  | count key => exact ⟨rfl, rfl⟩
  | size =>
    have hsize : (FMap.empty : FMap compare V).size = 0 := Holds.nil.size List.Pairwise.nil
    refine ⟨?_, rfl⟩
    simp only [Spec.exec, hsize]
    rfl
  | clear => exact ⟨rfl, rfl⟩

omit [StrictWeak compare] in
/-- An insertion into a map that was moved from fails. -/
theorem exec_movedFrom_error {op : Op K V} (h : op.Inserts) :
    exec compare { movedFrom with heap := heap } op = .error .deref := by
  -- The search ends at once, since `root_` and `nil_` are equal, and below `y = nil_`.
  have hattach : ∀ key val, attach compare
      (newNode { movedFrom with heap := heap } key val).2 heap.next nullptr = .error .deref :=
    fun key val => attach_error rfl (newNode_get _ key val)
  have hindex : ∀ key, index compare { movedFrom with heap := heap } key = .error .deref := by
    intro key
    show (attach compare (newNode { movedFrom with heap := heap } key default).2 heap.next nullptr
      >>= _) = _
    rw [hattach]
    rfl
  cases op with
  | insert key val =>
    show ((attach compare (newNode { movedFrom with heap := heap } key val).2 heap.next nullptr
      >>= _) >>= _) = _
    rw [hattach]
    rfl
  | index key => simp only [exec, hindex, bind, Except.bind]
  | assign key val => simp only [exec, hindex, bind, Except.bind]
  | erase key => exact absurd h not_false
  | find key => exact absurd h not_false
  | count key => exact absurd h not_false
  | size => exact absurd h not_false
  | clear => exact absurd h not_false

end

/-- `Begin()` shows the first entry. -/
theorem WF.begin_head {m : Map K V} {t : RbTree (Entry K V)} (h : m.WF compare t) :
    ∃ it, m.begin' = .ok it ∧ m.deref it = .ok (entries t).head? := by
  refine ⟨_, begin_spec h.rep (Nat.le_of_eq h.size.symm), ?_⟩
  unfold entries
  cases hl : t.toList with
  | nil => exact deref_end m
  | cons e l =>
    refine h.rep.deref_of_mem (e := e) ?_
    rw [hl]
    exact List.mem_cons_self

/-- A map without entries has its sentinel for a root. -/
theorem WF.entries_eq_nil {m : Map K V} {t : RbTree (Entry K V)} (h : m.WF compare t)
    (hroot : m.root = m.nil) : entries t = [] := by
  rw [h.rep.root] at hroot
  rw [(treeAddr_eq_nil_iff h.rep.nil_notMem).mp hroot]
  rfl

/-- The move assignment destroys the map first. -/
theorem moveAssign_eq (m : Map K V) (other : MapObj) :
    m.moveAssign other = (do
      let m' ← m.destroy
      let moved := { m' with root := other.root, nil := other.nil, size := other.size }
      return (moved, movedFrom)) := by
  unfold moveAssign destroy
  rw [bind_assoc]

/-- The copy of a map without entries is `Clear`. -/
theorem copyAssign_of_empty (fuel : Nat) {m : Map K V} {other : MapObj}
    (hroot : other.root = other.nil) : m.copyAssign fuel other = m.clear := by
  unfold copyAssign clear
  cases clearNode m.fuel m m.root with
  | error e => rfl
  | ok m1 =>
    simp only [hroot, ne_eq, not_true_eq_false, if_false, bind, Except.bind]
    rfl

end Map

namespace MoveWorld

/-! ### One step -/

/-- The step inserts nothing into a map that was moved from, does not call its `Begin`, and copies
no entries. -/
def Allows (w : MoveWorld K V) : MoveAct K V → Prop
  | .call i op => op.Inserts → ∀ o, w.maps i = some o → o.nil ≠ nullptr
  | .beginIt i => ∀ o, w.maps i = some o → o.nil ≠ nullptr
  | .copyAssign i j =>
    i ≠ j → ∀ o other, w.maps i = some o → w.maps j = some other → other.root = other.nil
  | _ => True

section
variable [StrictWeak compare]

/-- The maps at the addresses have the entries of the finite maps. They are well-formed, or were
moved from. -/
def Represents (w : MoveWorld K V) (Fs : Nat → Option (FMap compare V)) : Prop :=
  ∀ i, ∃ t, Slot w.heap (w.maps i) (Fs i) t

/-- What a step should do: the caller sees the answer of the finite maps, and the maps have the
entries that they should have. -/
def StepRight [Inhabited V] (_ : MoveWorld K V) (Fs : Nat → Option (FMap compare V))
    (act : MoveAct K V) (r : Result K V) (w' : MoveWorld K V) : Prop :=
  Spec.Answers Fs act r ∧ w'.Represents (Spec.moveStep Fs act)

variable {w : MoveWorld K V} {Fs : Nat → Option (FMap compare V)} {ts : Nat → RbTree (Entry K V)}
  {i j : Nat} {o : MapObj}

/-- The invariant says what the maps stand for. -/
theorem Inv.represents (h : w.Inv Fs ts) : w.Represents Fs := fun i => ⟨ts i, h.slot i⟩

/-- Where no map is, there is no finite map. -/
theorem Inv.at_none (h : w.Inv Fs ts) (hi : w.maps i = none) : Fs i = none := by
  have hslot := h.slot i
  rw [hi] at hslot
  generalize Fs i = F at hslot
  cases hslot
  rfl

/-- Where a map is, there is a finite map. The map was moved from, and the finite map is empty, or
the map is well-formed, and has the entries of the finite map. -/
theorem Inv.at_some (h : w.Inv Fs ts) (hi : w.maps i = some o) :
    ∃ F, Fs i = some F ∧ (o = Map.movedFrom ∧ F = FMap.empty ∨
      Map.WF compare { o with heap := w.heap } (ts i) ∧ Holds (Map.entries (ts i)) F) := by
  have hslot := h.slot i
  rw [hi] at hslot
  generalize hF : Fs i = F at hslot
  cases hslot with
  | moved t => exact ⟨_, rfl, Or.inl ⟨rfl, rfl⟩⟩
  | whole hwf hholds => exact ⟨_, rfl, Or.inr ⟨hwf, hholds⟩⟩

/-- A map without a sentinel was moved from. -/
theorem Inv.at_null (h : w.Inv Fs ts) (hi : w.maps i = some o) (hnil : o.nil = nullptr) :
    o = Map.movedFrom ∧ Fs i = some FMap.empty := by
  obtain ⟨F, hF, ⟨rfl, rfl⟩ | ⟨hwf, -⟩⟩ := h.at_some hi
  · exact ⟨rfl, hF⟩
  · exact absurd hnil hwf.rep.nil_ne_nullptr

/-- The finite map of a map without entries. -/
theorem Inv.at_empty (h : w.Inv Fs ts) (hi : w.maps i = some o) (hroot : o.root = o.nil) :
    Fs i = some FMap.empty := by
  obtain ⟨F, hF, ⟨rfl, rfl⟩ | ⟨hwf, hholds⟩⟩ := h.at_some hi
  · exact hF
  · rw [hwf.entries_eq_nil hroot] at hholds
    rw [hF, hholds.eq_empty]

/-- There is no map in the slot. -/
theorem map_of_none (hi : w.maps i = none) : w.map i = none := by
  unfold map
  rw [hi]
  rfl

/-- The map of a slot, with the common heap. -/
theorem map_of_some (hi : w.maps i = some o) : w.map i = some { o with heap := w.heap } := by
  unfold map
  rw [hi]
  rfl

/-- A map that was moved from stays as it is. -/
theorem Inv.stay (h : w.Inv Fs ts) (i : Nat) :
    (w.put i { Map.movedFrom with heap := w.heap }).Inv
      (Function.update Fs i (some FMap.empty)) (Function.update ts i .nil) :=
  h.update (.moved _) fun _ _ _ _ => ⟨List.not_mem_nil, rfl⟩

variable [Inhabited K] [Inhabited V] {fuel : Nat}

/-- The step does what it should and keeps the invariant. -/
def Steps (fuel : Nat) (w : MoveWorld K V) (Fs : Nat → Option (FMap compare V))
    (act : MoveAct K V) : Prop :=
  ∃ r w', w.step compare fuel act = .ok (r, w') ∧ Spec.Answers Fs act r ∧
    ∃ ts', w'.Inv (Spec.moveStep Fs act) ts'

omit [Inhabited K] [Inhabited V] in
/-- Nothing is asked of the answer where no map is. -/
theorem Inv.no_map (h : w.Inv Fs ts) (hi : w.maps i = none) {P : FMap compare V → Prop} :
    ∀ F, Fs i = some F → P F := by
  intro F hF
  rw [h.at_none hi] at hF
  cases hF

/-- A step at an address where no map is. -/
theorem Inv.steps_absent (h : w.Inv Fs ts) {act : MoveAct K V} {r : Result K V}
    (hstep : w.step compare fuel act = .ok (r, w)) (hans : Spec.Answers Fs act r)
    (hspec : Spec.moveStep Fs act = Fs) : w.Steps fuel Fs act :=
  ⟨r, w, hstep, hans, ts, hspec.symm ▸ h⟩

/-- A call of a member function. -/
theorem Inv.steps_call (h : w.Inv Fs ts) {op : Op K V} (hok : w.Allows (.call i op)) :
    w.Steps fuel Fs (.call i op) := by
  cases hi : w.maps i with
  | none =>
    refine h.steps_absent (r := .done) ?_ (h.no_map hi) ?_
    · simp only [step, map_of_none hi]
    · simp only [Spec.moveStep, h.at_none hi]
  | some o =>
    obtain ⟨F, hF, hmap⟩ := h.at_some hi
    have hspec : Spec.moveStep Fs (.call i op)
        = Function.update Fs i (some (Spec.exec F op).2) := by
      simp only [Spec.moveStep, hF]
    -- The answer and the new map are enough.
    have key : ∀ m' ts', Map.exec compare { o with heap := w.heap } op
          = .ok ((Spec.exec F op).1, m') →
        (w.put i m').Inv (Function.update Fs i (some (Spec.exec F op).2)) ts' →
        w.Steps fuel Fs (.call i op) := by
      intro m' ts' hexec hinv
      refine ⟨(Spec.exec F op).1, w.put i m', ?_, ?_, ts', hspec.symm ▸ hinv⟩
      · simp only [step, map_of_some hi, hexec, bind, Except.bind, pure, Except.pure]
      · intro F' hF'
        rw [hF] at hF'
        cases hF'
        rfl
    rcases hmap with ⟨rfl, rfl⟩ | ⟨hwf, hholds⟩
    · have hop : ¬ op.Inserts := fun hins => hok hins _ hi rfl
      obtain ⟨hexec, hempty⟩ := Map.exec_movedFrom compare w.heap hop
      refine key _ (Function.update ts i .nil) hexec ?_
      rw [hempty]
      exact h.stay i
    · obtain ⟨m', t', hexec, hwf', hev, hholds'⟩ := Map.exec_spec hwf hholds op
      exact key m' _ hexec (h.evolve hi hwf.rep.nil_ne_nullptr hwf' hholds' hev)

/-- `Begin`. -/
theorem Inv.steps_beginIt (h : w.Inv Fs ts) (hok : w.Allows (.beginIt i)) :
    w.Steps fuel Fs (.beginIt i) := by
  cases hi : w.maps i with
  | none =>
    refine h.steps_absent (r := .done) ?_ (h.no_map hi) rfl
    simp only [step, map_of_none hi]
  | some o =>
    obtain ⟨F, hF, ⟨rfl, rfl⟩ | ⟨hwf, hholds⟩⟩ := h.at_some hi
    · exact absurd rfl (hok _ hi)
    · obtain ⟨it, hbegin, hit⟩ := hwf.begin_head
      refine ⟨.iterator (Map.entries (ts i)).head?, w, ?_, ?_, ts, h⟩
      · simp only [step, map_of_some hi, hbegin, hit, bind, Except.bind, pure, Except.pure]
      · intro F' hF'
        rw [hF] at hF'
        cases hF'
        refine ⟨_, rfl, hholds.isFirst ?_⟩
        exact List.pairwise_map.mpr hwf.sorted

/-- `End`. -/
theorem Inv.steps_endIt (h : w.Inv Fs ts) : w.Steps fuel Fs (.endIt i) := by
  cases hi : w.maps i with
  | none =>
    refine h.steps_absent (r := .done) ?_ (h.no_map hi) rfl
    simp only [step, map_of_none hi]
  | some o =>
    refine ⟨.iterator none, w, ?_, fun _ _ => rfl, ts, h⟩
    have hend := Map.deref_end { o with heap := w.heap }
    simp only [step, map_of_some hi, Map.endIt, hend, bind, Except.bind, pure, Except.pure]

/-- The default constructor. -/
theorem Inv.steps_construct (h : w.Inv Fs ts) : w.Steps fuel Fs (.construct i) := by
  cases hi : w.maps i with
  | none =>
    have hinv := h.construct (i := i)
    have hspec : Spec.moveStep Fs (.construct i) = Function.update Fs i (some FMap.empty) := by
      simp only [Spec.moveStep, h.at_none hi]
    rw [← hspec] at hinv
    refine ⟨.done, _, ?_, trivial, _, hinv⟩
    simp only [step, hi]
  | some o =>
    obtain ⟨F, hF, -⟩ := h.at_some hi
    refine h.steps_absent (r := .done) ?_ trivial ?_
    · simp only [step, hi]
    · simp only [Spec.moveStep, hF]

/-- The destructor. -/
theorem Inv.steps_destroy (h : w.Inv Fs ts) : w.Steps fuel Fs (.destroy i) := by
  cases hi : w.maps i with
  | none =>
    refine h.steps_absent (r := .done) ?_ trivial ?_
    · simp only [step, map_of_none hi]
    · simp only [Spec.moveStep]
      rw [← h.at_none hi, Function.update_eq_self]
  | some o =>
    obtain ⟨m', hm', hinv⟩ := h.release hi
    refine ⟨.done, _, ?_, trivial, _, hinv⟩
    simp only [step, map_of_some hi, hm', bind, Except.bind, pure, Except.pure]

/-- The move constructor. -/
theorem Inv.steps_moveConstruct (h : w.Inv Fs ts) : w.Steps fuel Fs (.moveConstruct i j) := by
  cases hi : w.maps i with
  | some o =>
    obtain ⟨F, hF, -⟩ := h.at_some hi
    refine h.steps_absent (r := .done) ?_ trivial ?_
    · simp only [step, hi]
    · simp only [Spec.moveStep, hF]
  | none =>
    have hFi := h.at_none hi
    cases hj : w.maps j with
    | none =>
      refine h.steps_absent (r := .done) ?_ trivial ?_
      · simp only [step, hi, hj]
      · simp only [Spec.moveStep, hFi, h.at_none hj]
    | some o =>
      obtain ⟨F, hF, -⟩ := h.at_some hj
      have hinv := h.move hi hj hF
      have hspec : Spec.moveStep Fs (.moveConstruct i j)
          = Function.update (Function.update Fs i (some F)) j (some FMap.empty) := by
        simp only [Spec.moveStep, hFi, hF]
      rw [← hspec] at hinv
      refine ⟨.done, _, ?_, trivial, _, hinv⟩
      simp only [step, hi, hj, Map.moveConstruct]

/-- Two addresses for an assignment. It is skipped if they are the same, or if no map is at one of
them. -/
theorem Inv.steps_assign (h : w.Inv Fs ts) {act : MoveAct K V}
    (hact : act = .moveAssign i j ∨ act = .copyAssign i j)
    (hboth : ∀ o other Fi F, i ≠ j → w.maps i = some o → w.maps j = some other →
      Fs i = some Fi → Fs j = some F → w.Steps fuel Fs act) : w.Steps fuel Fs act := by
  have hskip : i = j ∨ w.maps i = none ∨ w.maps j = none →
      w.step compare fuel act = .ok (.done, w) ∧ Spec.moveStep Fs act = Fs := by
    rintro (hij | hi | hj)
    · rcases hact with rfl | rfl <;> simp only [step, Spec.moveStep, if_pos hij] <;> trivial
    · rcases hact with rfl | rfl <;>
        simp only [step, Spec.moveStep, map_of_none hi, h.at_none hi, ite_self] <;> trivial
    · have hF := h.at_none hj
      cases hm : w.map i <;> cases hFi : Fs i <;> rcases hact with rfl | rfl <;>
        simp only [step, Spec.moveStep, hm, hj, hF, hFi, ite_self] <;> trivial
  have hans : Spec.Answers Fs act .done := by
    rcases hact with rfl | rfl <;> trivial
  by_cases hij : i = j
  · exact h.steps_absent (hskip (Or.inl hij)).1 hans (hskip (Or.inl hij)).2
  cases hi : w.maps i with
  | none =>
    have hskip := hskip (Or.inr (Or.inl hi))
    exact h.steps_absent hskip.1 hans hskip.2
  | some o =>
    cases hj : w.maps j with
    | none =>
      have hskip := hskip (Or.inr (Or.inr hj))
      exact h.steps_absent hskip.1 hans hskip.2
    | some other =>
      obtain ⟨Fi, hFi, -⟩ := h.at_some hi
      obtain ⟨F, hF, -⟩ := h.at_some hj
      exact hboth o other Fi F hij hi hj hFi hF

/-- The move assignment: the destructor, and a move to where the map was. -/
theorem Inv.steps_moveAssign (h : w.Inv Fs ts) : w.Steps fuel Fs (.moveAssign i j) := by
  refine h.steps_assign (Or.inl rfl) fun o other Fi F hij hi hj hFi hF => ?_
  obtain ⟨m', hm', hinv⟩ := h.release hi
  -- No map is at `i` after the destructor, so the rest is what the move constructor does.
  have hi' : Function.update w.maps i none i = none := Function.update_self i none w.maps
  have hj' : Function.update w.maps i none j = some other :=
    (Function.update_of_ne (Ne.symm hij) none w.maps).trans hj
  have hF' : Function.update Fs i none j = some F :=
    (Function.update_of_ne (Ne.symm hij) none Fs).trans hF
  have hmoved := hinv.move hi' hj' hF'
  simp only [Function.update_idem] at hmoved
  have hassign : Map.moveAssign { o with heap := w.heap } other = .ok
      ({ m' with root := other.root, nil := other.nil, size := other.size }, Map.movedFrom) := by
    rw [Map.moveAssign_eq, hm']
    rfl
  have hspec : Spec.moveStep Fs (.moveAssign i j)
      = Function.update (Function.update Fs i (some F)) j (some FMap.empty) := by
    simp only [Spec.moveStep, if_neg hij, hFi, hF]
  rw [← hspec] at hmoved
  refine ⟨.done, _, ?_, trivial, _, hmoved⟩
  simp only [step, if_neg hij, map_of_some hi, hj, hassign, bind, Except.bind, pure, Except.pure]
  rfl

/-- The copy assignment of a map without entries: `Clear`. -/
theorem Inv.steps_copyAssign (h : w.Inv Fs ts) (hok : w.Allows (.copyAssign i j)) :
    w.Steps fuel Fs (.copyAssign i j) := by
  refine h.steps_assign (Or.inr rfl) fun o other Fi F hij hi hj hFi hF => ?_
  have hroot := hok hij o other hi hj
  obtain rfl : F = FMap.empty := Option.some.inj (hF.symm.trans (h.at_empty hj hroot))
  have hspec : Spec.moveStep Fs (.copyAssign i j) = Function.update Fs i (some FMap.empty) := by
    simp only [Spec.moveStep, if_neg hij, hFi, hF]
  -- The cleared map is enough.
  have key : ∀ m' ts', Map.clear { o with heap := w.heap } = .ok m' →
      (w.put i m').Inv (Function.update Fs i (some FMap.empty)) ts' →
      w.Steps fuel Fs (.copyAssign i j) := by
    intro m' ts' hclear hinv
    rw [← hspec] at hinv
    refine ⟨.done, w.put i m', ?_, trivial, ts', hinv⟩
    simp only [step, if_neg hij, map_of_some hi, hj, Map.copyAssign_of_empty fuel hroot, hclear,
      bind, Except.bind, pure, Except.pure]
  obtain ⟨-, -, ⟨rfl, -⟩ | ⟨hwf, hholds⟩⟩ := h.at_some hi
  · exact key _ (Function.update ts i .nil) rfl (h.stay i)
  · obtain ⟨m', hclear, hwf', hev⟩ := Map.clear_spec hwf
    exact key m' _ hclear (h.evolve hi hwf.rep.nil_ne_nullptr hwf' Holds.nil hev)

omit [Inhabited K] [Inhabited V] in
/-- The copy assignment of a map with entries does not end. The destination has another sentinel
than the source, or none. -/
theorem Inv.copyAssign_error (h : w.Inv Fs ts) {other : MapObj} (hij : i ≠ j)
    (hi : w.maps i = some o) (hj : w.maps j = some other) (hroot : other.root ≠ other.nil) :
    Map.copyAssign fuel { o with heap := w.heap } other = .error .fuel := by
  obtain ⟨-, -, ⟨rfl, -⟩ | ⟨hsrc, -⟩⟩ := h.at_some hj
  · exact absurd rfl hroot
  obtain ⟨-, -, ⟨rfl, -⟩ | ⟨hdst, -⟩⟩ := h.at_some hi
  · have hclosed : Map.ClosedLeft { Map.movedFrom with heap := w.heap } fun a =>
        a = other.nil ∨ a ∈ treeAddrs (ts j) := by
      -- The walk stays in the source, and no node is at the null address.
      refine ⟨fun a ha hnull => ?_, fun a ha => hsrc.rep.closed ha⟩
      obtain ⟨n, hn, -⟩ := hsrc.rep.closed ha
      rw [hnull] at hn
      cases hn
    have hmem : other.root = other.nil ∨ other.root ∈ treeAddrs (ts j) := by
      rw [show other.root = treeAddr other.nil (ts j) from hsrc.rep.root]
      exact treeAddr_eq_nil_or_mem other.nil (ts j)
    have hclear : Map.clear { Map.movedFrom with heap := w.heap }
        = .ok { Map.movedFrom with heap := w.heap } := rfl
    have hcopy : Map.copyNode fuel { Map.movedFrom with heap := w.heap } other.root
        Map.movedFrom.nil = .error .fuel := Map.copyNode_error fuel hclosed hmem
    unfold Map.copyAssign
    simp only [hclear, hroot, ne_eq, not_false_eq_true, if_true, hcopy, bind, Except.bind]
  · refine hdst.copyAssign_error hsrc hroot (fun a ha => ?_) fuel
    have hout := h.apart j i (Ne.symm hij) a
    rw [hi, hj, owned_of_ne hsrc.rep.nil_ne_nullptr, owned_of_ne hdst.rep.nil_ne_nullptr] at hout
    exact hout ha

/-- A step that is not allowed fails. -/
theorem Inv.step_error (h : w.Inv Fs ts) {act : MoveAct K V} (hbad : ¬ w.Allows act) :
    ∃ e, w.step compare fuel act = .error e := by
  cases act with
  | call i op =>
    simp only [Allows, not_forall, not_not] at hbad
    obtain ⟨hop, o, hi, hnil⟩ := hbad
    obtain ⟨rfl, -⟩ := h.at_null hi hnil
    refine ⟨.deref, ?_⟩
    simp only [step, map_of_some hi, Map.exec_movedFrom_error compare w.heap hop, bind,
      Except.bind]
  | beginIt i =>
    simp only [Allows, not_forall, not_not] at hbad
    obtain ⟨o, hi, hnil⟩ := hbad
    obtain ⟨rfl, -⟩ := h.at_null hi hnil
    have hbegin : Map.begin' { Map.movedFrom with heap := w.heap } = .error .deref := rfl
    refine ⟨.deref, ?_⟩
    simp only [step, map_of_some hi, hbegin, bind, Except.bind]
  | copyAssign i j =>
    simp only [Allows, not_forall] at hbad
    obtain ⟨hij, o, other, hi, hj, hroot⟩ := hbad
    refine ⟨.fuel, ?_⟩
    simp only [step, if_neg hij, map_of_some hi, hj, h.copyAssign_error hij hi hj hroot, bind,
      Except.bind]
  | construct i => exact absurd trivial hbad
  | endIt i => exact absurd trivial hbad
  | moveConstruct i j => exact absurd trivial hbad
  | moveAssign i j => exact absurd trivial hbad
  | destroy i => exact absurd trivial hbad

/-- A step that is allowed does what it should. -/
theorem Inv.steps (h : w.Inv Fs ts) {act : MoveAct K V} (hok : w.Allows act) :
    w.Steps fuel Fs act := by
  cases act with
  | construct i => exact h.steps_construct
  | call i op => exact h.steps_call hok
  | beginIt i => exact h.steps_beginIt hok
  | endIt i => exact h.steps_endIt
  | moveConstruct i j => exact h.steps_moveConstruct
  | moveAssign i j => exact h.steps_moveAssign
  | copyAssign i j => exact h.steps_copyAssign hok
  | destroy i => exact h.steps_destroy

end

/-! ### Programs -/

/-- The invariant, without the trees. -/
def Valid [StrictWeak compare] (w : MoveWorld K V) (Fs : Nat → Option (FMap compare V)) : Prop :=
  ∃ ts, w.Inv Fs ts

/-- What a step does, allowed or not. -/
theorem stepRule [StrictWeak compare] [Inhabited K] [Inhabited V] (fuel : Nat) :
    StepRule (step compare fuel) Spec.moveStep
      (fun (w : MoveWorld K V) (Fs : Nat → Option (FMap compare V)) => w.Valid Fs) StepRight
      Allows := by
  constructor
  · rintro w Fs act ⟨ts, hinv⟩ hok
    obtain ⟨r, w', hstep, hans, ts', hinv'⟩ := hinv.steps hok
    exact ⟨r, w', hstep, ⟨hans, hinv'.represents⟩, ts', hinv'⟩
  · rintro w Fs act ⟨ts, hinv⟩ hbad
    exact hinv.step_error hbad

end MoveWorld

/-- The maps of a reachable world, with the finite maps that have their entries. -/
theorem World.Reachable.valid [StrictWeak compare] [Inhabited K] [Inhabited V] {w : World K V}
    (h : w.Reachable compare) :
    ∃ Fs : Nat → Option (FMap compare V), w.toMoveWorld.Valid Fs := by
  obtain ⟨ts, hinv⟩ := h.inv
  have hslot : ∀ i, ∃ F : Option (FMap compare V), Slot w.heap (w.maps[i]?) F (ts i) := by
    intro i
    cases hi : w.maps[i]? with
    | none => exact ⟨none, .absent (ts i)⟩
    | some o =>
      have hwf := hinv.wf i { o with heap := w.heap } (World.map_eq_some.mpr ⟨hi, rfl⟩)
      obtain ⟨F, hF⟩ := Holds.exists_of_pairwise hwf.sorted.pairwise
      exact ⟨some F, .whole hwf hF⟩
  choose Fs hFs using hslot
  refine ⟨Fs, ts, hFs, fun i j hij a ha hb => ?_⟩
  obtain ⟨o, hi, ha⟩ := mem_owned ha
  obtain ⟨o', hj, hb⟩ := mem_owned hb
  exact hinv.apart i j o o' hij hi hj a ha hb

/-- A program that starts with the maps of a reachable world, and moves, assigns, destroys and uses
maps, does what it does on the finite maps with their entries, if and only if none of its steps
calls `Begin`, `Insert` or `operator[]` of a map that was moved from, or copies entries. A move
leaves the empty finite map, and gives the destination the entries of its source. -/
theorem World.Reachable.moved_iff [StrictWeak compare] [Inhabited K] [Inhabited V] {w : World K V}
    (h : w.Reachable compare) :
    ∃ Fs : Nat → Option (FMap compare V), w.toMoveWorld.Represents Fs ∧ ∀ fuel acts,
      Conforms (MoveWorld.step compare fuel) Spec.moveStep MoveWorld.StepRight w.toMoveWorld Fs
          acts ↔
        AllMeet (MoveWorld.step compare fuel) MoveWorld.Allows w.toMoveWorld acts := by
  obtain ⟨Fs, ts, hinv⟩ := h.valid
  exact ⟨Fs, hinv.represents, fun fuel acts =>
    conforms_iff (MoveWorld.stepRule fuel) ⟨ts, hinv⟩ acts⟩

/-- The programs that start with the maps of `World.sample`. -/
theorem World.sample_moved : ∃ Fs : Nat → Option (FMap (fun a b : Nat => decide (a < b)) Nat),
    World.sample.toMoveWorld.Represents Fs ∧ ∀ fuel acts,
      Conforms (MoveWorld.step (fun a b => decide (a < b)) fuel) Spec.moveStep MoveWorld.StepRight
          World.sample.toMoveWorld Fs acts ↔
        AllMeet (MoveWorld.step (fun a b => decide (a < b)) fuel) MoveWorld.Allows
          World.sample.toMoveWorld acts :=
  World.sample_reachable.moved_iff

/-- After a move from the map with the keys 3, 5 and 7, `Begin`, `Insert` and `operator[]` of that
map read through a null pointer. So no program that goes on with one of them does what it does on
the empty finite map. -/
theorem World.sample_moved_fault :
    World.sample.Reachable (fun a b => decide (a < b)) ∧
      World.sample.map 0 = some World.sampleMap ∧
      ∀ act ∈ [.beginIt 0, .call 0 (.insert 3 30), .call 0 (.index 3)], ∀ fuel,
        (∃ w, MoveWorld.step (fun a b => decide (a < b)) fuel World.sample.toMoveWorld
            (.moveConstruct 2 0) = .ok (.done, w) ∧
          w.step (fun a b => decide (a < b)) fuel act = .error .deref) ∧
        ∀ Fs : Nat → Option (FMap (fun a b : Nat => decide (a < b)) Nat),
          ¬ Conforms (MoveWorld.step (fun a b => decide (a < b)) fuel) Spec.moveStep
            MoveWorld.StepRight World.sample.toMoveWorld Fs [.moveConstruct 2 0, act] := by
  refine ⟨World.sample_reachable, rfl, fun act hact fuel => ?_⟩
  have hfault : ∃ w, MoveWorld.step (fun a b => decide (a < b)) fuel World.sample.toMoveWorld
      (.moveConstruct 2 0) = .ok (.done, w) ∧
        w.step (fun a b => decide (a < b)) fuel act = .error .deref := by
    refine ⟨_, rfl, ?_⟩
    simp only [List.mem_cons, List.not_mem_nil, or_false] at hact
    rcases hact with rfl | rfl | rfl <;> rfl
  refine ⟨hfault, fun Fs h => ?_⟩
  obtain ⟨w, hmove, herr⟩ := hfault
  obtain ⟨w₁, r, w₂, hw₁, hstep, -⟩ := h [.moveConstruct 2 0] act (List.prefix_refl _)
  have hafter := stateAfter_snoc (stateAfter_nil _ _) hmove
  obtain rfl := Except.ok.inj (hafter.symm.trans hw₁)
  rw [herr] at hstep
  cases hstep

end KernelEventsTrace.Driver.Std
