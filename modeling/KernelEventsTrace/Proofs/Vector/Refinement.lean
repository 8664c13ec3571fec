import KernelEventsTrace.Proofs.Vector.Bounds
import Mathlib.Data.List.Forall2

/-!
# `KernelEventsTrace.Proofs.Vector.Refinement`: a vector is a list

The `Sequential` calls are all but the assignment, `Resize`, `Clear` and `Erase`. `AllHold` relates
the vectors of a program with the lists of `VectorSpec`. Each sequential call keeps it, with one
exception (`AllHold.fineIff_step`): `PushBack` takes its argument by reference, and reads it after
`Reserve` has deleted the old array. A full vector must not be given one of its own elements.

`vectors_refine_lists_iff`: in a program that makes sequential calls only, at all times no access
leaves an array or goes to a deleted one, `operator[]` shows the elements of the lists, and `==` and
`!=` compare them, if and only if no full vector that grows is given one of its own elements.
-/

set_option autoImplicit false

namespace KernelEventsTrace.Driver.Std

variable {α : Type}

/-! ### Specification -/

/-- The calls whose meaning is a simple function of the elements. A read of a deleted element is a
fault. -/
def VectorOp.Sequential : VectorOp α → Prop
  | .assign _ _ => False
  | .resize _ _ _ => False
  | .clear _ => False
  | .erase _ _ => False
  | .pushBackElement _ _ _ stale => stale = none
  | _ => True

/-- `operator[]` shows the elements of the list, below `Size()`. -/
structure Shows (v : VectorObj α) (l : List α) : Prop where
  size : v.size = l.length
  index : ∀ i (hi : i < l.length), v.index i = .ok l[i]

/-- The vectors show the lists, and are compared like them. -/
structure RefinesLists [DecidableEq α] (vs : List (VectorObj α)) (ls : List (List α)) : Prop where
  elements : List.Forall₂ Shows vs ls
  comparison : ∀ (i j : Nat) (v w : VectorObj α) (l m : List α), vs[i]? = some v →
    vs[j]? = some w → ls[i]? = some l → ls[j]? = some m →
      v.equals w = .ok (decide (l = m)) ∧ v.notEquals w = .ok (decide (l ≠ m))

/-! ### One vector -/

namespace VectorObj

/-- A vector shows its content. -/
theorem Tight.shows {pool : Pool} {v : VectorObj α} (h : v.Tight pool) : Shows v v.content := by
  refine ⟨(length_content h.size_le_cells).symm, fun i hi => ?_⟩
  exact Buffer.read_initial (List.take_prefix v.size v.elements.cells) hi

variable [DecidableEq α] {pool : Pool} {v w : VectorObj α}

/-- The loop of `==` compares the elements. -/
theorem Tight.compareFrom_eq (h : v.Tight pool) (hw : w.Tight pool) (hsize : v.size = w.size) :
    Buffer.compareFrom v.elements w.elements 0 v.size 0 =
      .ok (decide (v.content = w.content)) := by
  have hcell := hw.size_le_cells
  rw [Buffer.compareFrom_of_le h.size_le_cells (by omega), List.drop_zero]
  unfold content
  rw [hsize]
  exact congrArg _ (decide_eq_decide.mpr eq_comm)

omit [DecidableEq α] in
/-- Vectors of different sizes have different elements. -/
theorem Tight.content_ne (h : v.Tight pool) (hw : w.Tight pool) (hsize : v.size ≠ w.size) :
    v.content ≠ w.content := by
  intro heq
  have hlen := congrArg List.length heq
  rw [length_content h.size_le_cells, length_content hw.size_le_cells] at hlen
  exact hsize hlen

/-- `==` compares the contents. -/
theorem Tight.equals_eq (h : v.Tight pool) (hw : w.Tight pool) :
    v.equals w = .ok (decide (v.content = w.content)) := by
  unfold equals
  by_cases hsize : v.size = w.size
  · rw [if_neg (not_not_intro hsize), h.compareFrom_eq hw hsize]
  · rw [if_pos hsize, decide_eq_false (h.content_ne hw hsize)]

/-- `!=` is the other answer. -/
theorem Tight.notEquals_eq (h : v.Tight pool) (hw : w.Tight pool) :
    v.notEquals w = .ok (decide (v.content ≠ w.content)) := by
  unfold notEquals
  by_cases hsize : v.size = w.size
  · rw [if_neg (not_not_intro hsize), h.compareFrom_eq hw hsize, decide_not]
    rfl
  · rw [if_pos hsize, decide_eq_true (h.content_ne hw hsize)]

end VectorObj

/-! ### Programs -/

/-- The call gives no vector one of its own elements that is full, unless there is no memory for a
greater array. -/
def PushKept (pool : Pool) (vs : List (VectorObj α)) (op : VectorOp α) : Prop :=
  ∀ i k stale v, op = .pushBackElement i i k stale → vs[i]? = some v → k.toNat < v.size →
    v.size = v.space → pool.limit < 2 * v.space

/-- The vectors are tight, and have the elements of the lists. -/
structure AllHold (pool : Pool) (ls : List (List α)) (vs : List (VectorObj α)) : Prop where
  tight : AllTight pool vs
  content : vs.map VectorObj.content = ls

section
variable {pool : Pool} {vs : List (VectorObj α)} {ls : List (List α)}

/-- The list at an index is the content of the vector there. -/
theorem AllHold.getElem? (h : AllHold pool ls vs) (i : Nat) :
    ls[i]? = vs[i]?.map VectorObj.content := by
  rw [← h.content, List.getElem?_map]

/-- A constructor adds a list. -/
theorem AllHold.yields_newVector (h : AllHold pool ls vs) {l : List α}
    {x : Except BufferFault (VectorObj α)} (hx : Yields x (VectorObj.Holds pool l)) :
    Yields (newVector vs x) (AllHold pool (ls ++ [l])) := by
  refine hx.map fun v hv => ⟨h.tight.append hv.toTight, ?_⟩
  rw [List.map_append, h.content, ← hv.content]
  rfl

/-- A call by what it does to one list. -/
theorem AllHold.yields_atVector (h : AllHold pool ls vs) {i : Nat}
    {f : VectorObj α → Except BufferFault (List (VectorObj α))} {g : List α → List (List α)}
    (hf : ∀ v, v.Tight pool → Yields (f v) (AllHold pool (g v.content))) :
    Yields (atVector vs i f) (AllHold pool (fromList ls i g)) := by
  unfold atVector fromList
  rw [h.getElem?]
  cases hv : vs[i]? with
  | none => exact h
  | some v => exact hf v (h.tight v (List.mem_of_getElem? hv))

/-- The vector `i` was changed. -/
theorem AllHold.set (h : AllHold pool ls vs) (i : Nat) {l : List α} {v : VectorObj α}
    (hv : VectorObj.Holds pool l v) : AllHold pool (ls.set i l) (vs.set i v) := by
  refine ⟨h.tight.set i hv.toTight, ?_⟩
  rw [List.map_set, h.content, hv.content]

/-- A call that changes one list. -/
theorem AllHold.yields_onVector (h : AllHold pool ls vs) {i : Nat}
    {f : VectorObj α → Except BufferFault (VectorObj α)} {g : List α → List α}
    (hf : ∀ v, v.Tight pool → Yields (f v) (VectorObj.Holds pool (g v.content))) :
    Yields (onVector vs i f) (AllHold pool (onList ls i g)) :=
  h.yields_atVector fun v hv => (hf v hv).map fun _ hv' => h.set i hv'

/-- A call with an operand, which may be the vector itself. -/
theorem AllHold.yields_withOperand (h : AllHold pool ls vs) {i j : Nat}
    {f : VectorObj α → VectorObj.Arg α → Except BufferFault (List (VectorObj α))}
    {g : List α → List α → List (List α)}
    (hf : ∀ v arg, v.Tight pool → arg.Tight pool →
      Yields (f v arg) (AllHold pool (g v.content (arg.get v).content))) :
    Yields (withOperand vs i j fun arg => atVector vs i fun v => f v arg)
      (AllHold pool (fromList ls j fun m => fromList ls i fun l => g l m)) := by
  unfold withOperand
  by_cases hij : i = j
  · -- The operand is the vector itself.
    subst hij
    rw [if_pos rfl]
    have hself := h.yields_atVector (i := i) (f := fun v => f v .self) (g := fun l => g l l)
      fun v hv => hf v .self hv trivial
    have heq : (fromList ls i fun m => fromList ls i fun l => g l m) =
        fromList ls i fun l => g l l := by
      unfold fromList
      cases ls[i]? <;> rfl
    rw [heq]
    exact hself
  · rw [if_neg hij]
    exact h.yields_atVector fun w hw => h.yields_atVector fun v hv => hf v (.other w) hv hw

/-- A `PushBack` for the vector `i` with an element of the vector `j`. -/
theorem AllHold.yields_withElement (h : AllHold pool ls vs) {i j k : Nat} {stale : Option α}
    {f : Buffer.Ref α → Except BufferFault (List (VectorObj α))} {g : α → List (List α)}
    (hvalue : ∀ a, Yields (f (.value a)) (AllHold pool (g a)))
    (hown : ∀ v a, i = j → vs[j]? = some v → v.Tight pool → v.content[k]? = some a →
      Yields (f (.own k stale)) (AllHold pool (g a))) :
    Yields (withElement vs i j k stale f) (AllHold pool (fromList ls j fun m =>
      match m[k]? with
      | some a => g a
      | none => ls)) := by
  unfold withElement atVector fromList
  rw [h.getElem?]
  cases hw : vs[j]? with
  | none => exact h
  | some w =>
    have htight := h.tight w (List.mem_of_getElem? hw)
    have hlen := VectorObj.length_content htight.size_le_cells
    rw [Option.map_some]
    by_cases hk : k < w.size
    · have ha : w.content[k]? = some w.content[k] := List.getElem?_eq_getElem (by omega)
      simp only [if_pos hk, ha]
      -- An element of another vector is a value, as nothing moves there.
      by_cases hij : i = j
      · rw [if_pos hij]
        exact hown w _ hij hw htight ha
      · have hread : w.index k = .ok w.content[k] := htight.shows.index k (by omega)
        rw [if_neg hij, hread]
        exact hvalue _
    · have hnone : w.content[k]? = none := List.getElem?_eq_none (by omega)
      simp only [if_neg hk, hnone]
      exact h

variable [Inhabited α]

/-- A sequential call does to the vectors what it does to the lists, unless it reads a deleted
element. -/
theorem AllHold.yields_step (h : AllHold pool ls vs) (op : VectorOp α) (hop : op.Sequential)
    (hkept : PushKept pool vs op) :
    Yields (stepVectors pool vs op) (AllHold pool (stepLists ls op)) := by
  cases op with
  | construct => exact h.yields_newVector VectorObj.holds_construct
  | constructSize s => exact h.yields_newVector (VectorObj.yields_constructSize _)
  | copyConstruct j =>
    exact h.yields_atVector fun v hv => h.yields_newVector hv.yields_copyConstruct
  | reserve i newSize =>
    -- The lists do not change.
    have hon := h.yields_onVector (i := i) (g := id) fun v hv =>
      (hv.yields_reserve newSize.toNat).mono fun _ h' => h'.1
    have hsame : onList ls i id = ls := by
      unfold onList
      cases hl : ls[i]? with
      | none => rfl
      | some l =>
        obtain ⟨hi, rfl⟩ := List.getElem?_eq_some_iff.mp hl
        exact List.set_getElem_self hi
    rw [hsame] at hon
    exact hon
  | pushBack i d => exact h.yields_onVector fun v hv => hv.yields_pushBack d
  | pushBackElement i j k stale =>
    refine h.yields_withElement (g := fun a => onList ls i fun l => l ++ [a])
      (f := fun d => onVector vs i fun v => v.pushBack pool d) (fun a => ?_)
      fun v a hij hv htight ha => ?_
    · exact h.yields_onVector fun v hv => hv.yields_pushBack a
    · -- The element is one of the vector itself.
      subst hij
      obtain ⟨hk, -⟩ := List.getElem?_eq_some_iff.mp ha
      rw [VectorObj.length_content htight.size_le_cells] at hk
      have hroom := hkept i k stale v rfl hv hk
      unfold onVector atVector onList
      rw [h.getElem?, hv]
      exact (htight.yields_pushBack_own hroom ha stale).map fun _ hv' => h.set i hv'
  | popBack i => exact h.yields_onVector fun v hv => hv.yields_popBack
  | append i j =>
    exact h.yields_withOperand fun v arg hv ha =>
      (hv.yields_append ha).map fun _ hv' => h.set i hv'
  | addAssign i j =>
    exact h.yields_withOperand fun v arg hv ha =>
      (hv.yields_append ha).map fun _ hv' => h.set i hv'
  | plus i j =>
    exact h.yields_withOperand (g := fun l m => ls ++ [l ++ m]) fun v arg hv ha =>
      h.yields_newVector (hv.yields_plus ha)
  | swap i a b =>
    exact h.yields_onVector fun v hv => (hv.yields_swap _ _).map fun _ h' => h'
  | eraseUnordered i n =>
    exact h.yields_onVector fun v hv => (hv.yields_eraseUnordered _).map fun _ h' => h'
  | assign i j => exact absurd hop id
  | resize i n val => exact absurd hop id
  | clear i => exact absurd hop id
  | erase i n => exact absurd hop id

/-- A full vector that grows reads its own element after the deletion. -/
theorem AllHold.step_deleted (h : AllHold pool ls vs) {op : VectorOp α} (hop : op.Sequential)
    (hkept : ¬ PushKept pool vs op) : stepVectors pool vs op = .error .deleted := by
  unfold PushKept at hkept
  simp only [not_forall, Nat.not_lt] at hkept
  obtain ⟨i, k, stale, v, rfl, hv, hk, hfull, hmemory⟩ := hkept
  obtain rfl : stale = none := hop
  have htight := h.tight v (List.mem_of_getElem? hv)
  show withElement vs i i k.toNat none (fun d => onVector vs i fun v => v.pushBack pool d) = _
  unfold withElement onVector atVector
  simp only [hv, if_pos hk, if_true]
  rw [htight.pushBack_own_full hfull hk hmemory]
  rfl

omit [Inhabited α] in
/-- Vectors that hold their lists show them. -/
theorem AllHold.refines [DecidableEq α] (h : AllHold pool ls vs) : RefinesLists vs ls := by
  refine ⟨?_, fun i j v w l m hv hw hl hm => ?_⟩
  · rw [← h.content, List.forall₂_map_right_iff, List.forall₂_same]
    exact fun v hv => (h.tight v hv).shows
  · rw [h.getElem?, hv] at hl
    rw [h.getElem?, hw] at hm
    cases hl
    cases hm
    have htight := h.tight v (List.mem_of_getElem? hv)
    have htight' := h.tight w (List.mem_of_getElem? hw)
    exact ⟨htight.equals_eq htight', htight.notEquals_eq htight'⟩

end

section
variable [Inhabited α] [DecidableEq α]

/-- A sequential call is fine exactly if it reads no deleted element. -/
theorem AllHold.fineIff_step {pool : Pool} {vs : List (VectorObj α)} {ls : List (List α)}
    (h : AllHold pool ls vs) {op : VectorOp α} (hop : op.Sequential) :
    FineIff (AllHold pool (stepLists ls op)) (fun vs' => RefinesLists vs' (stepLists ls op))
      (PushKept pool vs op) (stepVectors pool vs op) := by
  by_cases hkept : PushKept pool vs op
  · exact .of_yields hkept (h.yields_step op hop hkept)
  · exact .of_deleted hkept (h.step_deleted hop hkept)

/-- At every point of the program no access left its array or went to a deleted one, and the
vectors are the lists of the program. -/
def VectorsAreLists (pool : Pool) (ops : List (VectorOp α)) : Prop :=
  ∀ pre, pre <+: ops → Faultless (runVectors pool pre) ∧
    ∀ vs, runVectors pool pre = .ok vs → RefinesLists vs (runLists pre)

omit [DecidableEq α] in
/-- No full vector is given one of its own elements, unless there is no memory for a greater
array. -/
def PushesKept (pool : Pool) (ops : List (VectorOp α)) : Prop :=
  ∀ pre op, pre ++ [op] <+: ops → ∀ vs, runVectors pool pre = .ok vs → PushKept pool vs op

/-- Programs that make sequential calls only are programs with lists, if and only if no full vector
that grows is given one of its own elements. -/
theorem vectors_refine_lists_iff (pool : Pool) (ops : List (VectorOp α))
    (hops : ∀ op ∈ ops, op.Sequential) : VectorsAreLists pool ops ↔ PushesKept pool ops := by
  have hinit : AllHold pool ([] : List (List α)) [] := by
    refine ⟨fun v hv => ?_, rfl⟩
    cases hv
  exact throughoutBeside_iff (P := fun vs ls => AllHold pool ls vs) hinit
    (fun vs ls h => h.refines) ops fun vs ls op hop h => h.fineIff_step (hops op hop)

/-- A vector is appended to itself, an element is erased, and the sum with another one is made.
The last call pushes an element of a vector that has room. -/
def appendSelf : List (VectorOp Nat) :=
  [.construct, .pushBack 0 7, .pushBack 0 8, .append 0 0, .eraseUnordered 0 0, .constructSize 2,
    .plus 0 1, .swap 2 0 1, .pushBackElement 0 0 2 none]

/-- A vector is appended to itself, and the three vectors show their lists. -/
theorem vectors_refine_lists_appendSelf : ∃ vs, runVectors ⟨64, by decide⟩ appendSelf = .ok vs ∧
    RefinesLists vs [[8, 8, 7, 7], [0, 0], [8, 8, 7, 0, 0]] := by
  have hops : ∀ op ∈ appendSelf, op.Sequential := by
    simp [appendSelf, VectorOp.Sequential]
  have hrun : runVectors ⟨64, by decide⟩ appendSelf =
      .ok [⟨4, .array [8, 8, 7, 7, 0, 0, 0, 0], 8⟩, ⟨2, .array [0, 0], 2⟩,
        ⟨5, .array [8, 8, 7, 0, 0, 0], 6⟩] := rfl
  have hlists : runLists appendSelf = [[8, 8, 7, 7], [0, 0], [8, 8, 7, 0, 0]] := rfl
  have hkept : PushesKept ⟨64, by decide⟩ appendSelf := by
    rintro pre op hpre vs hvs i k stale v rfl hv - hfull
    have hsplit : appendSelf = appendSelf.dropLast ++ [.pushBackElement 0 0 2 none] := rfl
    rw [hsplit] at hpre
    rcases List.prefix_concat_iff.mp hpre with heq | hfront
    · -- The last call: the vector has eight cells.
      obtain ⟨rfl, hlast⟩ := List.append_inj' heq rfl
      obtain ⟨rfl, -, -, -⟩ := VectorOp.pushBackElement.inj (List.cons.inj hlast).1
      cases hvs
      cases hv
      exact absurd hfull (by decide)
    · -- There is no such call in front of it.
      have hmem := hfront.subset (List.mem_concat_self)
      simp [appendSelf] at hmem
  refine ⟨_, hrun, hlists ▸ ?_⟩
  exact (((vectors_refine_lists_iff ⟨64, by decide⟩ appendSelf hops).mpr hkept) _
    (List.prefix_refl _)).2 _ hrun

/-- A vector with the only element 7, which is full, is given that element. -/
def pushOwn : List (VectorOp Nat) := [.constructSize 1, .pushBackElement 0 0 0 none]

/-- `Reserve` deletes the array, and then the element is read. -/
theorem not_vectors_refine_lists_pushOwn :
    runVectors ⟨64, by decide⟩ pushOwn = .error .deleted ∧
      ¬ VectorsAreLists ⟨64, by decide⟩ pushOwn := by
  have hrun : runVectors ⟨64, by decide⟩ pushOwn = .error .deleted := rfl
  exact ⟨hrun, fun h => (h _ (List.prefix_refl _)).1.2 hrun⟩

end

end KernelEventsTrace.Driver.Std
