import KernelEventsTrace.Driver.Template.MiniFs
import KernelEventsTrace.Proofs.Vector.Bounds

/-!
# `KernelEventsTrace.Proofs.MiniFs.Dispatch`: which functions run for an operation

The two callbacks of an operation communicate through the status vector in the completion
context. `traced` makes the registered functions write down their calls, and
`operation_dispatched` says which calls an operation makes, in which order, and what becomes of
the context.

The loop of the pre-operation callback is described by `PreCalls`: the calls it makes for the
functions from an index on, and whether one of them completed the operation.
-/

set_option autoImplicit false

namespace KernelEventsTrace.Driver.MiniFs

open KernelEventsTrace (BufferFault Buffer Yields)
open KernelEventsTrace.Driver.Std
open KernelEventsTrace.Driver.SelfDefense (Pid ImageQuery CreateRequest SetInformationRequest)

/-! ### Calls -/

/-- A call of a registered function, with its index and with what a pre function returned. -/
inductive Call where
  | pre (i : Nat) (status : PreopCallbackStatus)
  | post (i : Nat)
  deriving Repr, DecidableEq

variable {σ : Type}

/-- The functions, with each call written down. -/
def IrpMjFunc.traced (func : IrpMjFunc σ) (i : Nat) : IrpMjFunc (σ × List Call) where
  irpMjFunctionCode := func.irpMjFunctionCode
  preFunc := func.preFunc.map fun pre st =>
    ((pre st.1).1, ((pre st.1).2, st.2 ++ [.pre i (pre st.1).1]))
  postFunc := func.postFunc.map fun post st => (post st.1, st.2 ++ [.post i])

/-- The functions from the index `i` on, with each call written down. -/
def tracedFrom (i : Nat) (funcs : List (IrpMjFunc σ)) : List (IrpMjFunc (σ × List Call)) :=
  (funcs.zipIdx i).map fun func => func.1.traced func.2

/-- The first function has its own number. -/
theorem tracedFrom_cons (i : Nat) (func : IrpMjFunc σ) (funcs : List (IrpMjFunc σ)) :
    tracedFrom i (func :: funcs) = func.traced i :: tracedFrom (i + 1) funcs := by
  simp [tracedFrom, List.zipIdx_cons]

/-- The registered functions, with each call written down. -/
def traced (funcs : List (IrpMjFunc σ)) : List (IrpMjFunc (σ × List Call)) := tracedFrom 0 funcs

/-- The function has a pre function that is called for the operation. -/
def IrpMjFunc.HasPre (op : Operation) (func : IrpMjFunc σ) : Prop :=
  op.majorFunction = func.irpMjFunctionCode ∧ func.preFunc.isSome = true

/-- The function has a post function that may be called for the operation. -/
def IrpMjFunc.HasPost (op : Operation) (func : IrpMjFunc σ) : Prop :=
  op.majorFunction = func.irpMjFunctionCode ∧ func.postFunc.isSome = true

/-- Whether a function is called before an operation. -/
instance (op : Operation) (func : IrpMjFunc σ) : Decidable (func.HasPre op) :=
  inferInstanceAs (Decidable (_ ∧ _))

/-- Whether a function is called after an operation. -/
instance (op : Operation) (func : IrpMjFunc σ) : Decidable (func.HasPost op) :=
  inferInstanceAs (Decidable (_ ∧ _))

/-- The indices of the pre functions that match the operation, in order. -/
def preIndices (op : Operation) (funcs : List (IrpMjFunc σ)) : List Nat :=
  (funcs.zipIdx.filter fun func => func.1.HasPre op).map Prod.snd

/-- The indices of the post functions that match the operation and whose pre function is null or
returned `FLT_PREOP_SUCCESS_WITH_CALLBACK`, in order. -/
def postIndices (op : Operation) (funcs : List (IrpMjFunc σ))
    (pres : List (Nat × PreopCallbackStatus)) : List Nat :=
  (funcs.zipIdx.filter fun func => func.1.HasPost op ∧
    (func.1.preFunc.isNone = true ∨ (func.2, .successWithCallback) ∈ pres)).map Prod.snd

/-- The log of the pre and post functions that were called. -/
def logOf (pres : List (Nat × PreopCallbackStatus)) (posts : List Nat) : List Call :=
  pres.map (fun pre => Call.pre pre.1 pre.2) ++ posts.map Call.post

/-- What an operation did: `pres` are the calls of pre functions with what they returned, `posts`
the calls of post functions. -/
structure Dispatched (funcs : List (IrpMjFunc σ)) (op : Operation) (ioStatus : NtStatus)
    (contexts : List (Option Context)) (pres : List (Nat × PreopCallbackStatus)) (posts : List Nat)
    (completed : Bool) (st : State (σ × List Call)) : Prop where
  /-- The pre functions run before the post functions. -/
  log : st.rest.2 = logOf pres posts
  /-- The pre functions that run are the first ones that match. -/
  pre_order : pres.map Prod.fst <+: preIndices op funcs
  /-- All but the last of them do not complete the operation. -/
  pre_go_on : ∀ pre ∈ pres.dropLast, pre.2 ≠ .complete
  /-- The operation is completed if the last one says so. -/
  completed_iff : completed = true ↔ ∃ i, pres.getLast? = some (i, .complete)
  /-- Otherwise all of them run. -/
  pre_all : completed = false → pres.map Prod.fst = preIndices op funcs
  /-- No post function runs for a completed operation. -/
  post_completed : completed = true → posts = []
  /-- No post function runs for an operation that failed. -/
  post_failed : ntSuccess ioStatus = false → posts = []
  /-- Otherwise those run whose pre function is null or asked for it. -/
  post_succeeded : completed = false → ntSuccess ioStatus = true →
    posts = postIndices op funcs pres
  /-- One context was allocated, and is deallocated. -/
  contexts : st.contexts = contexts ++ [none]

/-! ### The loop of the pre-operation callback -/

/-- The status is one that the pre function returns. -/
def IrpMjFunc.Returns (func : IrpMjFunc σ) (status : PreopCallbackStatus) : Prop :=
  ∃ pre s, func.preFunc = some pre ∧ (pre s).1 = status

/-- The calls of pre functions from the index on, and whether the last one completed the
operation. -/
inductive PreCalls (op : Operation) :
    Nat → List (IrpMjFunc σ) → List (Nat × PreopCallbackStatus) → Bool → Prop where
  | nil (i : Nat) : PreCalls op i [] [] false
  | skip {i : Nat} {func : IrpMjFunc σ} {funcs : List (IrpMjFunc σ)}
      {pres : List (Nat × PreopCallbackStatus)} {completed : Bool} :
      ¬ func.HasPre op → PreCalls op (i + 1) funcs pres completed →
      PreCalls op i (func :: funcs) pres completed
  | complete {i : Nat} {func : IrpMjFunc σ} {funcs : List (IrpMjFunc σ)} :
      func.HasPre op → PreCalls op i (func :: funcs) [(i, .complete)] true
  | call {i : Nat} {func : IrpMjFunc σ} {funcs : List (IrpMjFunc σ)}
      {status : PreopCallbackStatus} {pres : List (Nat × PreopCallbackStatus)}
      {completed : Bool} :
      func.HasPre op → func.Returns status → status ≠ .complete →
      PreCalls op (i + 1) funcs pres completed →
      PreCalls op i (func :: funcs) ((i, status) :: pres) completed

namespace PreCalls

variable {op : Operation} {i : Nat} {funcs : List (IrpMjFunc σ)}
  {pres : List (Nat × PreopCallbackStatus)} {completed : Bool}

/-- The indices of the matching pre functions, from an index on. -/
def indicesFrom (op : Operation) (i : Nat) (funcs : List (IrpMjFunc σ)) : List Nat :=
  ((funcs.zipIdx i).filter fun func => func.1.HasPre op).map Prod.snd

/-- A function with a pre-operation callback is listed. -/
theorem indicesFrom_cons_of_hasPre {func : IrpMjFunc σ} (h : func.HasPre op) :
    indicesFrom op i (func :: funcs) = i :: indicesFrom op (i + 1) funcs := by
  simp [indicesFrom, List.zipIdx_cons, h]

/-- A function without one is left out. -/
theorem indicesFrom_cons_of_not {func : IrpMjFunc σ} (h : ¬ func.HasPre op) :
    indicesFrom op i (func :: funcs) = indicesFrom op (i + 1) funcs := by
  simp [indicesFrom, List.zipIdx_cons, h]

/-- The calls are made in order, and none is left out. -/
theorem order (h : PreCalls op i funcs pres completed) :
    pres.map Prod.fst <+: indicesFrom op i funcs := by
  induction h with
  | nil i => exact List.prefix_refl _
  | skip hpre _ ih =>
    rw [indicesFrom_cons_of_not hpre]
    exact ih
  | complete hpre =>
    rw [indicesFrom_cons_of_hasPre hpre]
    exact ⟨_, rfl⟩
  | call hpre _ _ _ ih =>
    rw [indicesFrom_cons_of_hasPre hpre, List.map_cons, List.cons_prefix_cons]
    exact ⟨rfl, ih⟩

/-- Without a completion every matching pre function is called. -/
theorem all (h : PreCalls op i funcs pres completed) (hcompleted : completed = false) :
    pres.map Prod.fst = indicesFrom op i funcs := by
  induction h with
  | nil i => rfl
  | skip hpre _ ih =>
    rw [indicesFrom_cons_of_not hpre]
    exact ih hcompleted
  | complete hpre => cases hcompleted
  | call hpre _ _ _ ih =>
    rw [indicesFrom_cons_of_hasPre hpre, List.map_cons, ih hcompleted]

/-- Only the last call may return `FLT_PREOP_COMPLETE`, and the operation is completed exactly if
it does. -/
theorem complete_last (h : PreCalls op i funcs pres completed) :
    (∀ pre ∈ pres.dropLast, pre.2 ≠ .complete) ∧
      (completed = true ↔ ∃ i, pres.getLast? = some (i, .complete)) := by
  induction h with
  | nil i => simp
  | skip _ _ ih => exact ih
  | complete _ => simp
  | @call i func funcs status pres completed _ _ hstatus _ ih =>
    cases pres with
    | nil =>
      -- No call follows, so the operation is not completed.
      have hlast := ih.2
      simp only [List.getLast?_nil, reduceCtorEq, exists_false, iff_false] at hlast
      simp [hlast, hstatus]
    | cons pre pres =>
      refine ⟨?_, ?_⟩
      · intro p hp
        rw [List.dropLast_cons_cons, List.mem_cons] at hp
        rcases hp with rfl | hp
        · exact hstatus
        · exact ih.1 p hp
      · rw [List.getLast?_cons_cons]
        exact ih.2

/-- A call is one of a matching pre function. -/
theorem mem (h : PreCalls op i funcs pres completed) {pre : Nat × PreopCallbackStatus}
    (hmem : pre ∈ pres) : pre.1 ∈ indicesFrom op i funcs :=
  h.order.subset (List.mem_map_of_mem hmem)

/-- No call is made below the first index. -/
theorem le (h : PreCalls op i funcs pres completed) {pre : Nat × PreopCallbackStatus}
    (hmem : pre ∈ pres) : i ≤ pre.1 := by
  obtain ⟨func, hfunc, heq⟩ := List.mem_map.mp (h.mem hmem)
  obtain ⟨hle, -⟩ := List.mem_zipIdx (List.mem_of_mem_filter hfunc)
  rw [← heq]
  exact hle

end PreCalls

/-! ### The status vector -/

namespace State

variable {st : State σ} {p : ContextPtr} {v : VectorObj PreopCallbackStatus}

/-- A context that is not deallocated. -/
theorem context_of_getElem? (h : st.contexts[p]? = some (some ⟨v⟩)) : st.context p = .ok ⟨v⟩ := by
  unfold context
  rw [h]

/-- The context after a write to it. -/
theorem getElem?_put (context : Context) (h : st.contexts[p]? = some (some ⟨v⟩)) :
    (st.put p context).contexts[p]? = some (some context) := by
  obtain ⟨hp, -⟩ := List.getElem?_eq_some_iff.mp h
  show (st.contexts.set p (some context))[p]? = _
  rw [List.getElem?_set_self hp]

/-- A context that is there can be freed. -/
theorem deallocCompletionContext_of_getElem? (h : st.contexts[p]? = some (some ⟨v⟩)) :
    st.deallocCompletionContext p = .ok { st with contexts := st.contexts.set p none } := by
  unfold deallocCompletionContext
  rw [context_of_getElem? h]
  rfl

/-- A status inside of the array is read. -/
theorem readStatus_of_lt (h : st.contexts[p]? = some (some ⟨v⟩)) {i : Nat}
    (hi : i < v.elements.cells.length) : st.readStatus p i = .ok (v.elements.get i) := by
  unfold readStatus
  rw [context_of_getElem? h]
  exact Buffer.read_of_lt hi

/-- A status inside of the array is written. -/
theorem writeStatus_of_lt (h : st.contexts[p]? = some (some ⟨v⟩)) {i : Nat}
    (hi : i < v.elements.cells.length) (status : PreopCallbackStatus) :
    st.writeStatus p i status =
      .ok (st.put p ⟨{ v with elements := .array (v.elements.cells.set i status) }⟩) := by
  unfold writeStatus
  rw [context_of_getElem? h]
  show (do let elements ← v.elements.write i status
           return st.put p ⟨{ v with elements := elements }⟩ : Except BufferFault (State σ)) = _
  rw [Buffer.write_of_lt hi]
  rfl

end State

/-- The array after the statuses of the calls were written to it. -/
structure Recorded (b : Buffer PreopCallbackStatus) (pres : List (Nat × PreopCallbackStatus))
    (b' : Buffer PreopCallbackStatus) : Prop where
  length : b'.cells.length = b.cells.length
  call : ∀ i status, (i, status) ∈ pres → b'.get i = status
  other : ∀ i, (∀ status, (i, status) ∉ pres) → b'.get i = b.get i

/-- The status that was written is read. -/
theorem get_set_self {b : Buffer PreopCallbackStatus} {i : Nat} (hi : i < b.cells.length)
    (status : PreopCallbackStatus) : (Buffer.array (b.cells.set i status)).get i = status := by
  unfold Buffer.get
  rw [Buffer.cells_array, List.getElem?_set_self hi]
  rfl

/-- The other statuses are kept. -/
theorem get_set_of_ne {b : Buffer PreopCallbackStatus} {i j : Nat} (hij : i ≠ j)
    (status : PreopCallbackStatus) : (Buffer.array (b.cells.set i status)).get j = b.get j := by
  unfold Buffer.get
  rw [Buffer.cells_array, List.getElem?_set_ne hij]

/-- One call, and then calls of functions with greater indices. -/
theorem Recorded.cons {b b' : Buffer PreopCallbackStatus}
    {pres : List (Nat × PreopCallbackStatus)} {i : Nat} {status : PreopCallbackStatus}
    (hi : i < b.cells.length) (hlt : ∀ pre ∈ pres, i < pre.1)
    (h : Recorded (.array (b.cells.set i status)) pres b') :
    Recorded b ((i, status) :: pres) b' := by
  have hnot : ∀ s, (i, s) ∉ pres := fun s hmem => Nat.lt_irrefl i (hlt _ hmem)
  refine ⟨by rw [h.length]; simp, ?_, ?_⟩
  · intro j s hmem
    rcases List.mem_cons.mp hmem with heq | hmem
    · obtain ⟨rfl, rfl⟩ := Prod.mk.inj heq
      rw [h.other j hnot, get_set_self hi]
    · exact h.call j s hmem
  · intro j hj
    have hne : i ≠ j := by
      rintro rfl
      exact hj status List.mem_cons_self
    rw [h.other j fun s hmem => hj s (List.mem_cons_of_mem _ hmem), get_set_of_ne hne]

/-! ### The loops -/

section
variable (op : Operation) (p : ContextPtr)

/-- What the loop of the pre-operation callback leaves of the context. -/
def ContextAfter (v : VectorObj PreopCallbackStatus) (pres : List (Nat × PreopCallbackStatus))
    (completed : Bool) (context : Option Context) : Prop :=
  (completed = true ∧ context = none) ∨
    (completed = false ∧
      ∃ b, context = some ⟨{ v with elements := b }⟩ ∧ Recorded v.elements pres b)

/-- The loop of the pre-operation callback makes the calls that `PreCalls` describes, writes their
statuses to the vector, and deallocates the context if one of them completes the operation. -/
theorem preLoop_spec (funcs : List (IrpMjFunc σ)) :
    ∀ (i : Nat) (st : State (σ × List Call)) {v : VectorObj PreopCallbackStatus},
      st.contexts[p]? = some (some ⟨v⟩) → i + funcs.length ≤ v.elements.cells.length →
      ∃ pres completed context s,
        preLoop op p (tracedFrom i funcs) i st = .ok
          (if completed then .complete else .successWithCallback,
            ⟨st.contexts.set p context, s, st.rest.2 ++ pres.map fun pre => .pre pre.1 pre.2⟩) ∧
        PreCalls op i funcs pres completed ∧ ContextAfter v pres completed context := by
  induction funcs with
  | nil =>
    intro i st v hctx _
    refine ⟨[], false, some ⟨v⟩, st.rest.1, ?_, .nil i, Or.inr ⟨rfl, v.elements, rfl, rfl, ?_,
      fun _ _ => rfl⟩⟩
    · obtain ⟨hp, heq⟩ := List.getElem?_eq_some_iff.mp hctx
      rw [← heq, List.set_getElem_self hp]
      simp [tracedFrom, preLoop]
    · intro j status hmem
      cases hmem
  | cons func funcs ih =>
    intro i st v hctx hlen
    rw [List.length_cons] at hlen
    rw [tracedFrom_cons, preLoop]
    by_cases hcode : op.majorFunction = func.irpMjFunctionCode
    · rw [if_pos (show op.majorFunction = (func.traced i).irpMjFunctionCode from hcode)]
      cases hpre : func.preFunc with
      | none =>
        -- A null pre function is skipped, and its status stays the default.
        have hnone : (func.traced i).preFunc = none := by simp [IrpMjFunc.traced, hpre]
        obtain ⟨pres, completed, context, s, hrun, hcalls, hafter⟩ := ih (i + 1) _ hctx (by omega)
        refine ⟨pres, completed, context, s, ?_, .skip ?_ hcalls, hafter⟩
        · simp only [hnone]
          exact hrun
        · simp [IrpMjFunc.HasPre, hpre]
      | some pre =>
        have hhas : func.HasPre op := ⟨hcode, by rw [hpre]; rfl⟩
        have hsome : (func.traced i).preFunc = some fun st : σ × List Call =>
            ((pre st.1).1, ((pre st.1).2, st.2 ++ [.pre i (pre st.1).1])) := by
          simp [IrpMjFunc.traced, hpre]
        have hi : i < v.elements.cells.length := by omega
        simp only [hsome]
        generalize hret : pre st.rest.1 = ret
        obtain ⟨status, s1⟩ := ret
        have hctx1 : ({ st with rest := (s1, st.rest.2 ++ [.pre i status]) } :
            State (σ × List Call)).contexts[p]? = some (some ⟨v⟩) := hctx
        have hctx2 := State.getElem?_put
          ⟨{ v with elements := .array (v.elements.cells.set i status) }⟩ hctx1
        simp only [State.writeStatus_of_lt hctx1 hi, bind, Except.bind]
        by_cases hstatus : status = .complete
        · -- The context is deallocated at once, and the loop stops.
          subst hstatus
          refine ⟨[(i, .complete)], true, none, s1, ?_, .complete hhas, Or.inl ⟨rfl, rfl⟩⟩
          simp only [if_true, State.deallocCompletionContext_of_getElem? hctx2, pure, Except.pure]
          simp [State.put]
        · -- The rest of the loop starts with the status of this call in the vector.
          obtain ⟨pres, completed, context, s, hrun, hcalls, hafter⟩ :=
            ih (i + 1) _ hctx2 (by simp; omega)
          refine ⟨(i, status) :: pres, completed, context, s, ?_,
            .call hhas ⟨pre, st.rest.1, hpre, congrArg Prod.fst hret⟩ hstatus hcalls, ?_⟩
          · rw [if_neg hstatus, hrun]
            simp [State.put]
          · refine hafter.imp id ?_
            rintro ⟨hcompleted, b, hcontext, hrec⟩
            exact ⟨hcompleted, b, hcontext, hrec.cons hi fun pre hmem => hcalls.le hmem⟩
    · -- The function is registered for another operation.
      rw [if_neg (show ¬ op.majorFunction = (func.traced i).irpMjFunctionCode from hcode)]
      obtain ⟨pres, completed, context, s, hrun, hcalls, hafter⟩ := ih (i + 1) _ hctx (by omega)
      exact ⟨pres, completed, context, s, hrun, .skip (fun hhas => hcode hhas.1) hcalls, hafter⟩

/-- The loop of the post-operation callback calls the matching post functions whose status is
neither `FLT_PREOP_SUCCESS_NO_CALLBACK` nor `FLT_PREOP_COMPLETE`. -/
theorem postLoop_spec (funcs : List (IrpMjFunc σ)) :
    ∀ (i : Nat) (st : State (σ × List Call)) {v : VectorObj PreopCallbackStatus},
      st.contexts[p]? = some (some ⟨v⟩) → i + funcs.length ≤ v.elements.cells.length →
      ∃ s, postLoop op p (tracedFrom i funcs) i st = .ok ⟨st.contexts, s, st.rest.2 ++
        (((funcs.zipIdx i).filter fun func => func.1.HasPost op ∧
          v.elements.get func.2 ≠ .successNoCallback ∧
          v.elements.get func.2 ≠ .complete).map Prod.snd).map Call.post⟩ := by
  induction funcs with
  | nil =>
    intro i st v _ _
    exact ⟨st.rest.1, by simp [tracedFrom, postLoop]⟩
  | cons func funcs ih =>
    intro i st v hctx hlen
    rw [List.length_cons] at hlen
    rw [tracedFrom_cons, postLoop]
    by_cases hcode : op.majorFunction = func.irpMjFunctionCode
    · rw [if_pos (show op.majorFunction = (func.traced i).irpMjFunctionCode from hcode)]
      cases hpost : func.postFunc with
      | none =>
        have hnone : (func.traced i).postFunc = none := by simp [IrpMjFunc.traced, hpost]
        obtain ⟨s, hrun⟩ := ih (i + 1) _ hctx (by omega)
        refine ⟨s, ?_⟩
        simp only [hnone]
        rw [hrun]
        simp [List.zipIdx_cons, IrpMjFunc.HasPost, hpost]
      | some post =>
        have hsome : (func.traced i).postFunc = some fun st : σ × List Call =>
            (post st.1, st.2 ++ [.post i]) := by
          simp [IrpMjFunc.traced, hpost]
        have hhas : func.HasPost op := ⟨hcode, by rw [hpost]; rfl⟩
        have hread := State.readStatus_of_lt hctx (i := i) (by omega)
        simp only [hsome, hread, bind, Except.bind]
        by_cases hstatus : v.elements.get i ≠ .successNoCallback ∧ v.elements.get i ≠ .complete
        · rw [if_pos hstatus]
          obtain ⟨s, hrun⟩ := ih (i + 1)
            { st with rest := (post st.rest.1, st.rest.2 ++ [.post i]) } hctx (by omega)
          refine ⟨s, ?_⟩
          rw [hrun]
          simp [List.zipIdx_cons, hhas, hstatus]
        · -- Its own pre function did not ask for the callback.
          rw [if_neg hstatus]
          obtain ⟨s, hrun⟩ := ih (i + 1) _ hctx (by omega)
          refine ⟨s, ?_⟩
          rw [hrun]
          simp only [List.zipIdx_cons, List.filter_cons, hhas, hstatus, and_false, decide_false,
            Bool.false_eq_true, if_false]
    · rw [if_neg (show ¬ op.majorFunction = (func.traced i).irpMjFunctionCode from hcode)]
      obtain ⟨s, hrun⟩ := ih (i + 1) _ hctx (by omega)
      refine ⟨s, ?_⟩
      rw [hrun]
      simp [List.zipIdx_cons, IrpMjFunc.HasPost, hcode]

end

/-! ### Main result -/

/-- The pre functions return one of the statuses that the registered ones return. -/
def ReturnsKnownStatus (funcs : List (IrpMjFunc σ)) : Prop :=
  ∀ func ∈ funcs, ∀ pre, func.preFunc = some pre → ∀ s, (pre s).1 = .successWithCallback ∨
    (pre s).1 = .successNoCallback ∨ (pre s).1 = .complete

/-- The two callbacks agree on the functions to call after the operation. -/
theorem filter_post_eq {op : Operation} {funcs : List (IrpMjFunc σ)}
    {pres : List (Nat × PreopCallbackStatus)} {b b' : Buffer PreopCallbackStatus}
    (hcalls : PreCalls op 0 funcs pres false) (hrec : Recorded b pres b')
    (hdefault : ∀ i, b.get i = .successWithCallback)
    (hknown : ∀ pre ∈ pres, pre.2 = .successWithCallback ∨ pre.2 = .successNoCallback ∨
      pre.2 = .complete) :
    (funcs.zipIdx.filter fun func => func.1.HasPost op ∧ b'.get func.2 ≠ .successNoCallback ∧
      b'.get func.2 ≠ .complete).map Prod.snd = postIndices op funcs pres := by
  unfold postIndices
  congr 1
  refine List.filter_congr fun func hfunc => ?_
  -- An index belongs to one function.
  have hget : ∀ func' ∈ funcs.zipIdx, func'.2 = func.2 → func'.1 = func.1 := by
    intro func' hfunc' heq
    rw [List.mem_zipIdx_iff_getElem?] at hfunc hfunc'
    rw [heq, hfunc] at hfunc'
    exact (Option.some.inj hfunc').symm
  rw [decide_eq_decide]
  refine and_congr_right fun hpost => ?_
  cases hpre : func.1.preFunc with
  | none =>
    -- No pre function was called, and the status is the default.
    have hother : b'.get func.2 = .successWithCallback := by
      rw [hrec.other func.2 fun status hmem => ?_, hdefault]
      obtain ⟨func', hfunc', heq⟩ := List.mem_map.mp (hcalls.mem hmem)
      obtain ⟨hmem', hhas⟩ := List.mem_filter.mp hfunc'
      have hsome := (of_decide_eq_true hhas).2
      rw [hget func' hmem' heq, hpre] at hsome
      cases hsome
    simp [hother]
  | some pre =>
    -- The pre function was called, because none completed the operation.
    have hidx : func.2 ∈ pres.map Prod.fst := by
      rw [hcalls.all rfl]
      refine List.mem_map.mpr ⟨func, List.mem_filter.mpr ⟨hfunc, decide_eq_true ?_⟩, rfl⟩
      exact ⟨hpost.1, by rw [hpre]; rfl⟩
    obtain ⟨⟨i, status⟩, hmem, heq⟩ := List.mem_map.mp hidx
    obtain rfl : i = func.2 := heq
    rw [hrec.call _ status hmem]
    constructor
    · rintro ⟨hno, hcomplete⟩
      right
      rcases hknown _ hmem with h | h | h
      · rw [← h]
        exact hmem
      · exact absurd h hno
      · exact absurd h hcomplete
    · rintro (hnone | hwith)
      · cases hnone
      · have hstatus := hrec.call _ _ hwith
        rw [hrec.call _ status hmem] at hstatus
        rw [hstatus]
        exact ⟨by decide, by decide⟩

/-- What a pre function returned is one of the known statuses. -/
theorem PreCalls.known {op : Operation} {i : Nat} {funcs : List (IrpMjFunc σ)}
    {pres : List (Nat × PreopCallbackStatus)} {completed : Bool}
    (h : PreCalls op i funcs pres completed) (hknown : ReturnsKnownStatus funcs) :
    ∀ pre ∈ pres, pre.2 = .successWithCallback ∨ pre.2 = .successNoCallback ∨
      pre.2 = .complete := by
  induction h with
  | nil i =>
    intro pre hpre
    cases hpre
  | skip _ _ ih => exact ih fun func hfunc => hknown func (List.mem_cons_of_mem _ hfunc)
  | complete _ =>
    intro pre hpre
    rw [List.mem_singleton.mp hpre]
    exact Or.inr (Or.inr rfl)
  | call _ hreturns _ _ ih =>
    intro p hp
    rcases List.mem_cons.mp hp with rfl | hp
    · obtain ⟨pre, s, hpre, rfl⟩ := hreturns
      exact hknown _ List.mem_cons_self pre hpre s
    · exact ih (fun func hfunc => hknown func (List.mem_cons_of_mem _ hfunc)) p hp

/-- A new status vector has the default status everywhere, if there is the memory for it. -/
theorem constructSize_cases (pool : Pool) (n : Nat) :
    (pool.limit < n ∧ (VectorObj.constructSize pool n :
        Except BufferFault (VectorObj PreopCallbackStatus)) = .error .noMemory) ∨
      (n ≤ pool.limit ∧ ∃ b : Buffer PreopCallbackStatus,
        VectorObj.constructSize pool n = .ok ⟨n, b, n⟩ ∧ b.cells.length = n ∧
        ∀ i, b.get i = .successWithCallback) := by
  unfold VectorObj.constructSize
  rcases Nat.lt_or_ge pool.limit n with hlt | hle
  · left
    rw [Pool.allocate_of_lt hlt]
    exact ⟨hlt, rfl⟩
  · right
    rw [Pool.allocate_of_le hle]
    obtain ⟨b, hb, hw⟩ := VectorObj.clearLoop_spec 0 n
      (b := .array (List.replicate n (default : PreopCallbackStatus))) (Nat.zero_le n) (by simp)
    refine ⟨hle, b, ?_, ?_, fun i => ?_⟩
    · simp only [bind, Except.bind, hb, pure, Except.pure]
    · rw [hw.length]
      simp
    · unfold Buffer.get
      rw [hw.get, Buffer.cells_array, List.getElem?_replicate]
      by_cases hi : i < n
      · simp only [Nat.zero_le, hi, and_self, if_true]
        rfl
      · simp only [hi, and_false, if_false]
        rfl

/-- A vector that has the size already. -/
theorem resize_same (pool : Pool) (n : Nat) (b : Buffer PreopCallbackStatus) :
    VectorObj.resize pool ⟨n, b, n⟩ n default = .ok ⟨n, b, n⟩ := by
  unfold VectorObj.resize VectorObj.reserve
  rw [if_pos (Nat.le_refl n)]
  simp only [bind, Except.bind, pure, Except.pure, forRange_of_le (Nat.le_refl n)]

/-- `AllocCompletionContext` and the `Resize` after it. -/
theorem newContext_eq {pool : Pool} {n : Nat} {b : Buffer PreopCallbackStatus}
    (hb : VectorObj.constructSize pool n = .ok ⟨n, b, n⟩) (st : State σ) :
    st.allocCompletionContext pool n = .ok (st.contexts.length,
        { st with contexts := st.contexts ++ [some ⟨⟨n, b, n⟩⟩] }) ∧
      State.resizeStatus pool { st with contexts := st.contexts ++ [some ⟨⟨n, b, n⟩⟩] }
        st.contexts.length n = .ok { st with contexts := st.contexts ++ [some ⟨⟨n, b, n⟩⟩] } := by
  constructor
  · unfold State.allocCompletionContext
    rw [hb]
    rfl
  · have hctx : ({ st with contexts := st.contexts ++ [some ⟨⟨n, b, n⟩⟩] } :
        State σ).contexts[st.contexts.length]? = some (some ⟨⟨n, b, n⟩⟩) := by simp
    unfold State.resizeStatus
    rw [State.context_of_getElem? hctx]
    simp only [bind, Except.bind, resize_same, pure, Except.pure, State.put]
    simp

/-- The pre-operation callback of a user operation on a file, when there is the memory for the
context. -/
theorem miniFsPreOperation_spec {pool : Pool} {funcs : List (IrpMjFunc σ)} {op : Operation}
    (hfile : op.hasFileObject = true) (huser : op.requestorMode = .userMode)
    (hroom : funcs.length ≤ pool.limit) (contexts : List (Option Context)) (s : σ) :
    ∃ pres completed context s' v,
      miniFsPreOperation pool (traced funcs) op none ⟨contexts, s, []⟩ = .ok
        (if completed then .complete else .successWithCallback, some contexts.length,
          ⟨contexts ++ [context], s', pres.map fun pre => .pre pre.1 pre.2⟩) ∧
      PreCalls op 0 funcs pres completed ∧ ContextAfter v pres completed context ∧
      v.elements.cells.length = funcs.length ∧
      ∀ i, v.elements.get i = .successWithCallback := by
  rcases constructSize_cases pool funcs.length with ⟨hlt, -⟩ | ⟨-, b, hb, hlen, hget⟩
  · omega
  have hsize : (traced funcs).length = funcs.length := by simp [traced, tracedFrom]
  have hctx : (contexts ++ [some (Context.mk ⟨funcs.length, b, funcs.length⟩)])[contexts.length]? =
      some (some ⟨⟨funcs.length, b, funcs.length⟩⟩) := by simp
  obtain ⟨pres, completed, context, s', hrun, hcalls, hafter⟩ :=
    preLoop_spec op contexts.length funcs 0
      ⟨contexts ++ [some ⟨⟨funcs.length, b, funcs.length⟩⟩], s, []⟩ hctx
      (by rw [hlen]; omega)
  refine ⟨pres, completed, context, s', _, ?_, hcalls, hafter, hlen, hget⟩
  have hset : (contexts ++ [some (Context.mk ⟨funcs.length, b, funcs.length⟩)]).set
      contexts.length context = contexts ++ [context] := by simp
  rw [hset, List.nil_append] at hrun
  obtain ⟨halloc, hresize⟩ := newContext_eq hb (⟨contexts, s, []⟩ : State (σ × List Call))
  unfold miniFsPreOperation
  simp only [hfile, huser, hsize, halloc, hresize, bind, Except.bind, pure, Except.pure,
    reduceCtorEq, if_false, Bool.true_eq_false]
  unfold traced
  rw [hrun]

/-- The post-operation callback of an operation that was not completed: it calls the post functions
if the operation succeeded, and deallocates the context. -/
theorem miniFsPostOperation_spec {funcs : List (IrpMjFunc σ)} (op : Operation)
    (contexts : List (Option Context)) (v : VectorObj PreopCallbackStatus) (s : σ)
    (log : List Call) (ioStatus : NtStatus) (hlen : funcs.length ≤ v.elements.cells.length) :
    ∃ s' posts, miniFsPostOperation (traced funcs) op (some contexts.length) ioStatus
        ⟨contexts ++ [some ⟨v⟩], s, log⟩ =
          .ok ⟨contexts ++ [none], s', log ++ posts.map Call.post⟩ ∧
      (ntSuccess ioStatus = false → posts = []) ∧
      (ntSuccess ioStatus = true → posts = (funcs.zipIdx.filter fun func => func.1.HasPost op ∧
        v.elements.get func.2 ≠ .successNoCallback ∧
        v.elements.get func.2 ≠ .complete).map Prod.snd) := by
  have hctx : (contexts ++ [some (Context.mk v)])[contexts.length]? = some (some ⟨v⟩) := by simp
  have hset : (contexts ++ [some (Context.mk v)]).set contexts.length none =
      contexts ++ [none] := by simp
  unfold miniFsPostOperation
  cases hstatus : ntSuccess ioStatus with
  | false =>
    refine ⟨s, [], ?_, fun _ => rfl, fun h => by cases h⟩
    simp only [if_true, List.map_nil, List.append_nil]
    rw [State.deallocCompletionContext_of_getElem? hctx]
    simp only [hset]
  | true =>
    obtain ⟨s', hrun⟩ := postLoop_spec op contexts.length funcs 0
      ⟨contexts ++ [some ⟨v⟩], s, log⟩ hctx (by omega)
    refine ⟨s', _, ?_, (fun h => by cases h), fun _ => rfl⟩
    simp only [Bool.true_eq_false, if_false]
    unfold traced
    rw [hrun]
    simp only [bind, Except.bind]
    rw [State.deallocCompletionContext_of_getElem? hctx]
    simp only [hset]

/-- For a user operation on a file, the pre functions that match run in order up to the first one
that completes the operation. If none does and the operation succeeds, the post functions run whose
pre function is null or asked for it, and otherwise none. The context is allocated once,
deallocated once, and not used after that. -/
theorem operation_dispatched (pool : Pool) (funcs : List (IrpMjFunc σ)) (op : Operation)
    (ioStatus : NtStatus) (contexts : List (Option Context)) (s : σ)
    (hfile : op.hasFileObject = true) (huser : op.requestorMode = .userMode)
    (hknown : ReturnsKnownStatus funcs) :
    Yields (operation pool (traced funcs) op ioStatus ⟨contexts, s, []⟩)
        (fun r => ∃ pres posts, Dispatched funcs op ioStatus contexts pres posts r.1 r.2) ∧
      (funcs.length ≤ pool.limit →
        ∃ r, operation pool (traced funcs) op ioStatus ⟨contexts, s, []⟩ = .ok r) := by
  rcases Nat.lt_or_ge pool.limit funcs.length with hlt | hroom
  · -- The context is never allocated.
    rcases constructSize_cases pool funcs.length with ⟨-, hnone⟩ | ⟨hle, -⟩
    · have hsize : (traced funcs).length = funcs.length := by simp [traced, tracedFrom]
      have hrun : operation pool (traced funcs) op ioStatus ⟨contexts, s, []⟩ =
          .error .noMemory := by
        unfold operation miniFsPreOperation State.allocCompletionContext
        simp only [hfile, huser, hsize, hnone, bind, Except.bind, reduceCtorEq, if_false,
          Bool.true_eq_false]
      rw [hrun]
      exact ⟨trivial, fun hle => by omega⟩
    · omega
  obtain ⟨pres, completed, context, s', v, hpre, hcalls, hafter, hlen, hget⟩ :=
    miniFsPreOperation_spec hfile huser hroom contexts s
  have hlast := hcalls.complete_last
  cases completed with
  | true =>
    -- The operation ends here, so the post-operation callback is not called.
    obtain rfl : context = none := by
      rcases hafter with ⟨-, h⟩ | ⟨h, -⟩
      · exact h
      · cases h
    have hrun : operation pool (traced funcs) op ioStatus ⟨contexts, s, []⟩ =
        .ok (true, ⟨contexts ++ [none], s', pres.map fun pre => .pre pre.1 pre.2⟩) := by
      unfold operation
      rw [hpre]
      rfl
    refine ⟨Yields.of_eq_ok hrun ⟨pres, [], ?_⟩, fun _ => ⟨_, hrun⟩⟩
    exact {
      log := by simp [logOf]
      pre_order := hcalls.order
      pre_go_on := hlast.1
      completed_iff := hlast.2
      pre_all := fun h => by cases h
      post_completed := fun _ => rfl
      post_failed := fun _ => rfl
      post_succeeded := fun h => by cases h
      contexts := rfl }
  | false =>
    obtain ⟨b, rfl, hrec⟩ : ∃ b, context = some ⟨{ v with elements := b }⟩ ∧
        Recorded v.elements pres b := by
      rcases hafter with ⟨h, -⟩ | ⟨-, h⟩
      · cases h
      · exact h
    obtain ⟨s'', posts, hpost, hfailed, hsucceeded⟩ :=
      miniFsPostOperation_spec op contexts { v with elements := b } s'
        (pres.map fun pre => .pre pre.1 pre.2) ioStatus (by rw [← hlen, ← hrec.length])
    have hrun : operation pool (traced funcs) op ioStatus ⟨contexts, s, []⟩ =
        .ok (false, ⟨contexts ++ [none], s'',
          (pres.map fun pre => .pre pre.1 pre.2) ++ posts.map Call.post⟩) := by
      unfold operation
      rw [hpre]
      simp only [bind, Except.bind, Bool.false_eq_true, if_false, hpost, pure, Except.pure]
    refine ⟨Yields.of_eq_ok hrun ⟨pres, posts, ?_⟩, fun _ => ⟨_, hrun⟩⟩
    exact {
      log := rfl
      pre_order := hcalls.order
      pre_go_on := hlast.1
      completed_iff := hlast.2
      pre_all := hcalls.all
      post_completed := fun h => by cases h
      post_failed := hfailed
      post_succeeded := fun _ h =>
        (hsucceeded h).trans (filter_post_eq hcalls hrec hget (hcalls.known hknown))
      contexts := rfl }

/-- The functions of the self-defense return known statuses. -/
theorem returnsKnownStatus_registered (query : Pid → ImageQuery)
    (setInformation : SetInformationRequest) (create : CreateRequest) :
    ReturnsKnownStatus (registeredFunctions query setInformation create) := by
  have hknown : ∀ result, callbackStatus result = .successWithCallback ∨
      callbackStatus result = .successNoCallback ∨ callbackStatus result = .complete := by
    intro result
    cases result <;> simp [callbackStatus]
  intro func hfunc pre hpre g
  rcases List.mem_cons.mp hfunc with rfl | hfunc
  · obtain rfl := Option.some.inj hpre
    exact hknown _
  · obtain rfl := List.mem_singleton.mp hfunc
    obtain rfl := Option.some.inj hpre
    exact hknown _

/-- A function that asks for a callback, one without a pre function, and one that does not. -/
def threeFunctions : List (IrpMjFunc Nat) :=
  [⟨IRP_MJ_CREATE, some fun n => (.successWithCallback, n + 1), some fun n => n + 10⟩,
    ⟨IRP_MJ_CREATE, none, some fun n => n + 100⟩,
    ⟨IRP_MJ_CREATE, some fun n => (.successNoCallback, n + 1000), some fun n => n⟩]

/-- A create request for `threeFunctions`. -/
theorem operation_dispatched_three :
    Yields (operation ⟨64, by decide⟩ (traced threeFunctions) ⟨true, .userMode, IRP_MJ_CREATE⟩
        STATUS_SUCCESS ⟨[], 0, []⟩)
      (fun r => ∃ pres posts, Dispatched threeFunctions ⟨true, .userMode, IRP_MJ_CREATE⟩
        STATUS_SUCCESS [] pres posts r.1 r.2) ∧
    (threeFunctions.length ≤ 64 → ∃ r, operation ⟨64, by decide⟩ (traced threeFunctions)
      ⟨true, .userMode, IRP_MJ_CREATE⟩ STATUS_SUCCESS ⟨[], 0, []⟩ = .ok r) := by
  have hknown : ReturnsKnownStatus threeFunctions := by
    intro func hfunc pre hpre s
    simp only [threeFunctions, List.mem_cons, List.not_mem_nil, or_false] at hfunc
    rcases hfunc with rfl | rfl | rfl <;> cases hpre
    · exact Or.inl rfl
    · exact Or.inr (Or.inl rfl)
  exact operation_dispatched ⟨64, by decide⟩ threeFunctions ⟨true, .userMode, IRP_MJ_CREATE⟩
    STATUS_SUCCESS [] 0 rfl rfl hknown

/-- The first two post functions run, in order. -/
example : ((operation ⟨64, by decide⟩ (traced threeFunctions) ⟨true, .userMode, IRP_MJ_CREATE⟩
    STATUS_SUCCESS ⟨[], 0, []⟩).map fun r => (r.1, r.2.rest, r.2.contexts)) =
    .ok (false, (1111, [.pre 0 .successWithCallback, .pre 2 .successNoCallback, .post 0, .post 1]),
      [none]) := rfl

end KernelEventsTrace.Driver.MiniFs
