import KernelEventsTrace.Lib.FaultRun
import KernelEventsTrace.Proofs.Vector.Content

/-!
# `KernelEventsTrace.Proofs.Vector.Bounds`: the array bounds of `Vector`

Every member function keeps the bookkeeping of its vector exact (`VectorObj.Tight`) and stays
inside of the array, but `Clear`: it adds the size to `space_` and allocates nothing.

`vectorsBounded_iff`: in a program with vectors the bounds hold at all times if and only if
`Clear` is only called on empty vectors. `PushBack` may get an element of the vector itself, and
read it after its deletion, but that changes no index.
-/

set_option autoImplicit false

namespace KernelEventsTrace.Driver.Std

variable {α : Type}

/-! ### Programs -/

section
variable (pool : Pool)

/-- Every vector is tight. -/
def AllTight (vs : List (VectorObj α)) : Prop := ∀ v ∈ vs, v.Tight pool

variable {pool} {vs : List (VectorObj α)}

/-- One more vector. -/
theorem AllTight.append (h : AllTight pool vs) {v : VectorObj α} (hv : v.Tight pool) :
    AllTight pool (vs ++ [v]) := by
  intro w hw
  rcases List.mem_append.mp hw with hw | hw
  · exact h w hw
  · rw [List.mem_singleton.mp hw]
    exact hv

/-- One vector is replaced. -/
theorem AllTight.set (h : AllTight pool vs) (i : Nat) {v : VectorObj α} (hv : v.Tight pool) :
    AllTight pool (vs.set i v) := by
  intro w hw
  rcases List.mem_or_eq_of_mem_set hw with hw | rfl
  · exact h w hw
  · exact hv

/-- A call by what it does to one vector. -/
theorem AllTight.yields_atVector (h : AllTight pool vs) {i : Nat}
    {f : VectorObj α → Except BufferFault (List (VectorObj α))}
    (hf : ∀ v, vs[i]? = some v → v.Tight pool → Yields (f v) (AllTight pool)) :
    Yields (atVector vs i f) (AllTight pool) := by
  unfold atVector
  cases hv : vs[i]? with
  | none => exact h
  | some v => exact hf v hv (h v (List.mem_of_getElem? hv))

/-- A member function that keeps its vector tight keeps all of them tight. -/
theorem AllTight.yields_onVector (h : AllTight pool vs) {i : Nat}
    {f : VectorObj α → Except BufferFault (VectorObj α)}
    (hf : ∀ v, vs[i]? = some v → v.Tight pool → Yields (f v) (VectorObj.Tight pool)) :
    Yields (onVector vs i f) (AllTight pool) :=
  h.yields_atVector fun v hv htight => (hf v hv htight).map fun _ hv' => h.set i hv'

/-- The same for a call that may read a deleted element. -/
theorem AllTight.yields_onVector_ignoreDeleted (h : AllTight pool vs) {i : Nat}
    {f : VectorObj α → Except BufferFault (VectorObj α)}
    (hf : ∀ v, vs[i]? = some v → v.Tight pool →
      Yields (ignoreDeleted (f v)) (VectorObj.Tight pool)) :
    Yields (ignoreDeleted (onVector vs i f)) (AllTight pool) := by
  unfold onVector atVector
  cases hv : vs[i]? with
  | none => exact h
  | some v =>
    show Yields (ignoreDeleted ((f v).map fun v => vs.set i v)) _
    rw [ignoreDeleted_map]
    exact (hf v hv (h v (List.mem_of_getElem? hv))).map fun _ hv' => h.set i hv'

/-- The operand of a call is one of the vectors. -/
theorem AllTight.yields_withOperand (h : AllTight pool vs) {i j : Nat}
    {f : VectorObj.Arg α → Except BufferFault (List (VectorObj α))}
    (hf : ∀ arg, arg.Tight pool → Yields (f arg) (AllTight pool)) :
    Yields (withOperand vs i j f) (AllTight pool) := by
  unfold withOperand
  split
  · exact hf .self trivial
  · exact h.yields_atVector fun w _ hw => hf (.other w) hw

/-- A constructor adds a vector. -/
theorem AllTight.yields_newVector (h : AllTight pool vs)
    {v : Except BufferFault (VectorObj α)} (hv : Yields v (VectorObj.Tight pool)) :
    Yields (newVector vs v) (AllTight pool) :=
  hv.map fun _ hv' => h.append hv'

/-- The call is no `Clear` of a nonempty vector. -/
def ClearsEmptyAt (vs : List (VectorObj α)) (op : VectorOp α) : Prop :=
  ∀ i v, op = .clear i → vs[i]? = some v → v.size = 0

/-- The argument is an element of one of the vectors. -/
theorem AllTight.yields_withElement (h : AllTight pool vs) {i j k : Nat} {stale : Option α}
    {f : Buffer.Ref α → Except BufferFault (List (VectorObj α))}
    (hvalue : ∀ a, Yields (ignoreDeleted (f (.value a))) (AllTight pool))
    (hown : (∀ v, vs[i]? = some v → k < v.size) →
      Yields (ignoreDeleted (f (.own k stale))) (AllTight pool)) :
    Yields (ignoreDeleted (withElement vs i j k stale f)) (AllTight pool) := by
  unfold withElement atVector
  cases hw : vs[j]? with
  | none => exact h
  | some w =>
    by_cases hk : k < w.size
    · simp only [if_pos hk]
      -- An element of another vector is a value, as nothing moves there.
      by_cases hij : i = j
      · subst hij
        rw [if_pos rfl]
        refine hown fun v hv => ?_
        rw [hw] at hv
        obtain rfl := Option.some.inj hv
        exact hk
      · have hcell := (h w (List.mem_of_getElem? hw)).size_le_cells
        have hread : w.index k = .ok w.elements.cells[k] :=
          Buffer.read_of_getElem? (List.getElem?_eq_getElem (by omega))
        rw [if_neg hij, hread]
        exact hvalue _
    · simp only [if_neg hk]
      exact h

/-- Every call but `Clear` of a nonempty vector keeps all vectors tight. A `PushBack` of an element
is left to `AllTight.yields_ignoreDeleted_step`. -/
theorem AllTight.yields_step [Inhabited α] (h : AllTight pool vs) (op : VectorOp α)
    (hop : ¬ op.PushesElement) (hclear : ClearsEmptyAt vs op) :
    Yields (stepVectors pool vs op) (AllTight pool) := by
  cases op with
  | construct => exact h.yields_newVector VectorObj.holds_construct.toTight
  | constructSize s =>
    exact h.yields_newVector (VectorObj.yields_tight (VectorObj.yields_constructSize _))
  | copyConstruct j =>
    exact h.yields_atVector fun v _ hv =>
      h.yields_newVector (VectorObj.yields_tight hv.yields_copyConstruct)
  | assign i j =>
    exact h.yields_withOperand fun arg ha =>
      h.yields_onVector fun v _ hv => hv.yields_assign ha
  | reserve i newSize =>
    exact h.yields_onVector fun v _ hv => (hv.yields_reserve _).mono fun _ h' => h'.1.toTight
  | resize i newSize val =>
    exact h.yields_onVector fun v _ hv => (hv.yields_resize _ val).mono fun _ h' => h'.1.toTight
  | clear i => exact h.yields_onVector fun v heq hv => hv.yields_clear (hclear i v rfl heq)
  | pushBack i d =>
    exact h.yields_onVector fun v _ hv => VectorObj.yields_tight (hv.yields_pushBack d)
  | pushBackElement i j k stale => exact absurd trivial hop
  | popBack i => exact h.yields_onVector fun v _ hv => VectorObj.yields_tight hv.yields_popBack
  | append i j =>
    exact h.yields_withOperand fun arg ha =>
      h.yields_onVector fun v _ hv => VectorObj.yields_tight (hv.yields_append ha)
  | addAssign i j =>
    exact h.yields_withOperand fun arg ha =>
      h.yields_onVector fun v _ hv => VectorObj.yields_tight (hv.yields_append ha)
  | plus i j =>
    exact h.yields_withOperand fun arg ha =>
      h.yields_atVector fun v _ hv =>
        h.yields_newVector (VectorObj.yields_tight (hv.yields_plus ha))
  | swap i a b =>
    exact h.yields_onVector fun v _ hv => (hv.yields_swap _ _).map fun _ h' => h'.toTight
  | erase i n =>
    exact h.yields_onVector fun v _ hv => (hv.yields_erase _).map fun _ h' => h'
  | eraseUnordered i n =>
    exact h.yields_onVector fun v _ hv => (hv.yields_eraseUnordered _).map fun _ h' => h'.toTight

/-- Every call but `Clear` of a nonempty vector keeps all vectors tight, whatever a `PushBack`
reads. -/
theorem AllTight.yields_ignoreDeleted_step [Inhabited α] (h : AllTight pool vs) (op : VectorOp α)
    (hclear : ClearsEmptyAt vs op) :
    Yields (ignoreDeleted (stepVectors pool vs op)) (AllTight pool) := by
  by_cases hop : op.PushesElement
  · cases op with
    | pushBackElement i j k stale =>
      refine h.yields_withElement (f := fun d => onVector vs i fun v => v.pushBack pool d)
        (fun a => ?_) fun hk => ?_
      · exact (h.yields_step (.pushBack i a) id fun _ _ hop => by cases hop).ignoreDeleted
      · refine h.yields_onVector_ignoreDeleted fun v hget hv => hv.yields_pushBack_ref ?_
        rintro k' stale' ⟨⟩
        exact hk v hget
    | _ => exact absurd hop id
  · exact (h.yields_step op hop hclear).ignoreDeleted

end

section
variable [Inhabited α] (pool : Pool)

/-- At every point of the program no access left its array, and the bounds hold for every vector.
A read of an element that was deleted is no such access. It gives the value that lies there, or
ends the program. -/
def VectorsBounded (ops : List (VectorOp α)) : Prop :=
  ∀ pre, pre <+: ops → runVectors pool pre ≠ .error .outOfBounds ∧
    ∀ vs, runVectors pool pre = .ok vs → ∀ v ∈ vs, v.Bounded

/-- `Clear` is only called on empty vectors. -/
def ClearsEmpty (ops : List (VectorOp α)) : Prop :=
  ∀ pre i, pre ++ [.clear i] <+: ops → ∀ vs v, runVectors pool pre = .ok vs →
    vs[i]? = some v → v.size = 0

variable {pool}

/-- A `Clear` of a nonempty vector is seen at once. -/
theorem AllTight.fineIff_step {vs : List (VectorObj α)} (h : AllTight pool vs)
    (op : VectorOp α) :
    FineIff (AllTight pool) (fun vs => ∀ v ∈ vs, v.Bounded) (ClearsEmptyAt vs op)
      (ignoreDeleted (stepVectors pool vs op)) := by
  refine ⟨h.yields_ignoreDeleted_step op, fun hn hy => hn ?_⟩
  intro i v hop hv
  subst hop
  by_contra hne
  obtain ⟨v', hv', hbad⟩ := (h v (List.mem_of_getElem? hv)).clear_not_bounded hne
  have hres : stepVectors pool vs (.clear i) = .ok (vs.set i v') := by
    show onVector vs i _ = _
    unfold onVector atVector
    rw [hv]
    show (v.clear).map _ = _
    rw [hv']
    rfl
  obtain ⟨hi, -⟩ := List.getElem?_eq_some_iff.mp hv
  exact hbad (hy.value (ignoreDeleted_eq_ok_iff.mpr hres) v' (List.mem_set hi v'))

/-- The bounds hold throughout a program if and only if it calls `Clear` on empty vectors
only. -/
theorem vectorsBounded_iff (pool : Pool) (ops : List (VectorOp α)) :
    VectorsBounded pool ops ↔ ClearsEmpty pool ops := by
  have hinit : AllTight pool ([] : List (VectorObj α)) := by
    intro v hv
    cases hv
  have hmeet : StepsMeet (stepVectors pool) [] ClearsEmptyAt ops ↔ ClearsEmpty pool ops := by
    constructor
    · intro h pre i hpre vs v hrun hv
      exact h pre (.clear i) hpre vs hrun i v rfl hv
    · intro h pre op hpre vs hrun i v hop hv
      subst hop
      exact h pre i hpre vs v hrun hv
  rw [← hmeet]
  exact throughout_ignoreDeleted_iff hinit (fun vs h v hv => (h v hv).bounded) ops
    fun vs op h => h.fineIff_step op

/-- One element is pushed and cleared, and then nine are pushed. -/
def clearThenPush : List (VectorOp Nat) :=
  [.construct, .pushBack 0 7, .clear 0] ++ List.replicate 9 (.pushBack 0 7)

/-- `Clear` made `space_` 9 for an array of 8 elements, and the last push writes behind it. -/
theorem not_vectorsBounded_clearThenPush :
    runVectors ⟨64, by decide⟩ clearThenPush = .error .outOfBounds ∧
      ¬ VectorsBounded ⟨64, by decide⟩ clearThenPush := by
  have hrun : runVectors ⟨64, by decide⟩ clearThenPush = .error .outOfBounds := rfl
  exact ⟨hrun, fun h => (h _ (List.prefix_refl _)).1 hrun⟩

end

end KernelEventsTrace.Driver.Std
