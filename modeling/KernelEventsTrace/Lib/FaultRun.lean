import KernelEventsTrace.Lib.Buffer
import Mathlib.Data.List.Induction

/-!
# `KernelEventsTrace.Lib.FaultRun`: when a program goes wrong

`FineIff P Q c x` says exactly when `x` is fine: under the condition `c` it makes no fault and its
value satisfies the invariant `P`, and otherwise it makes a fault or its value does not satisfy the
weaker `Q`. `YieldsIff P Q c x` says in addition that `x` reads no deleted array.

`throughout_iff` is the rule for a sequence of steps. If every step is fine exactly under its
condition, in a state that satisfies `P`, then all points of a run are fine if and only if every
step meets its condition.

`throughout_ignoreDeleted_iff` is for runs whose bounds alone matter, where a read of a deleted
array only ends the run.

`throughoutBeside_iff` is the same rule for a run whose points are compared with those of a
specification, which takes the same steps and makes no fault.
-/

set_option autoImplicit false

namespace KernelEventsTrace

/-- Under the condition the program makes no fault and its value satisfies `P`. Otherwise it makes
a fault, or its value does not even satisfy `Q`. -/
structure FineIff {β : Type} (P Q : β → Prop) (c : Prop) (x : Except BufferFault β) : Prop where
  yields : c → Yields x P
  only : ¬ c → ¬ Yields x Q

/-- The same for a program that reads no deleted array: any fault leaves an array. -/
structure YieldsIff {β : Type} (P Q : β → Prop) (c : Prop) (x : Except BufferFault β) : Prop
    extends FineIff P Q c x where
  sharp : ¬ c → x ≠ .error .deleted

section
variable {β γ : Type} {P Q : β → Prop} {P' Q' : γ → Prop} {c c' : Prop} {x : Except BufferFault β}

/-- A program that is fine, under a condition that holds. -/
theorem FineIff.of_yields (hc : c) (h : Yields x P) : FineIff P Q c x :=
  ⟨fun _ => h, fun hn => absurd hc hn⟩

/-- A read of a deleted array is a fault. -/
theorem FineIff.of_deleted (hc : ¬ c) (h : x = .error .deleted) : FineIff P Q c x :=
  ⟨fun hn => absurd hn hc, fun _ hy => hy.faultless.2 h⟩

/-- The condition can be put in other words. -/
theorem FineIff.congr (h : FineIff P Q c x) (hc : c' ↔ c) : FineIff P Q c' x :=
  ⟨fun h' => h.yields (hc.mp h'), fun h' => h.only fun hn => h' (hc.mpr hn)⟩

/-- More can be asked of a result that is not fine. -/
theorem FineIff.mono {Q₁ : β → Prop} (h : FineIff P Q c x) (hQ : ∀ b, Q₁ b → Q b) :
    FineIff P Q₁ c x :=
  ⟨h.yields, fun hn hy => h.only hn (hy.mono hQ)⟩

/-- The result is changed. -/
theorem FineIff.map {f : β → γ} (h : FineIff P Q c x) (hP : ∀ b, P b → P' (f b))
    (hQ : ∀ b, Q' (f b) → Q b) : FineIff P' Q' c (x.map f) := by
  refine ⟨fun hc => (h.yields hc).map hP, fun hn hy => h.only hn ?_⟩
  match x, hy with
  | .ok b, hy => exact hQ b hy
  | .error .noMemory, _ => trivial

/-- A program that yields, under a condition that holds. -/
theorem YieldsIff.of_yields (hc : c) (h : Yields x P) : YieldsIff P Q c x :=
  ⟨.of_yields hc h, fun hn => absurd hc hn⟩

/-- A fault, under a condition that does not hold. -/
theorem YieldsIff.of_fault (hc : ¬ c) (h : x = .error .outOfBounds) : YieldsIff P Q c x := by
  refine ⟨⟨fun hn => absurd hn hc, fun _ hy => hy.faultless.1 h⟩, fun _ hdel => ?_⟩
  rw [h] at hdel
  cases hdel

/-- A result that is fine exactly under the condition. -/
theorem YieldsIff.of_ok {b : β} (hx : x = .ok b) (hP : c → P b) (hQ : Q b → c) :
    YieldsIff P Q c x := by
  refine ⟨⟨fun hc => .of_eq_ok hx (hP hc), fun hn hy => hn (hQ (hy.value hx))⟩, fun _ hdel => ?_⟩
  rw [hx] at hdel
  cases hdel

/-- The condition can be put in other words. -/
theorem YieldsIff.congr (h : YieldsIff P Q c x) (hc : c' ↔ c) : YieldsIff P Q c' x :=
  ⟨h.toFineIff.congr hc, fun h' => h.sharp fun hn => h' (hc.mpr hn)⟩

/-- More can be asked of a result that is not fine. -/
theorem YieldsIff.mono {Q₁ : β → Prop} (h : YieldsIff P Q c x) (hQ : ∀ b, Q₁ b → Q b) :
    YieldsIff P Q₁ c x :=
  ⟨h.toFineIff.mono hQ, h.sharp⟩

/-- The result is changed. -/
theorem YieldsIff.map {f : β → γ} (h : YieldsIff P Q c x) (hP : ∀ b, P b → P' (f b))
    (hQ : ∀ b, Q' (f b) → Q b) : YieldsIff P' Q' c (x.map f) := by
  refine ⟨h.toFineIff.map hP hQ, fun hn hdel => h.sharp hn ?_⟩
  match x, hdel with
  | .error .deleted, _ => rfl

/-- Such a program does not change where only the bounds matter. -/
theorem YieldsIff.ignoreDeleted (h : YieldsIff P Q c x) : FineIff P Q c (ignoreDeleted x) := by
  refine ⟨fun hc => (h.yields hc).ignoreDeleted, fun hn hy => ?_⟩
  have hsharp := h.sharp hn
  have honly := h.only hn
  match x, hsharp, hy with
  | .ok b, _, hy => exact honly hy
  | .error .noMemory, _, hy => exact honly hy
  | .error .deleted, hdel, _ => exact hdel rfl

end

/-! ### Runs -/

section
variable {σ ι : Type} (step : σ → ι → Except BufferFault σ) (init : σ)

/-- At every point of the run there was no fault, and `Q` holds. -/
def Throughout (Q : σ → Prop) (ops : List ι) : Prop :=
  ∀ pre, pre <+: ops → Faultless (pre.foldlM step init) ∧
    ∀ s, pre.foldlM step init = .ok s → Q s

/-- A run, if it returns, keeps what every step keeps. The induction is on the steps. -/
theorem returns_foldlM {σ ι : Type} {step : σ → ι → Except BufferFault σ} {P : σ → Prop}
    (hstep : ∀ s op, P s → Returns (step s op) P) (ops : List ι) {s : σ} (h : P s) :
    Returns (ops.foldlM step s) P := by
  induction ops generalizing s with
  | nil => exact returns_ok h
  | cons op ops ih =>
    rw [List.foldlM_cons]
    exact Returns.bind (hstep s op h) fun s' hs' => ih hs'

/-- Every step meets its condition, in the state before it. -/
def StepsMeet (c : σ → ι → Prop) (ops : List ι) : Prop :=
  ∀ pre op, pre ++ [op] <+: ops → ∀ s, pre.foldlM step init = .ok s → c s op

variable {step init} {P Q : σ → Prop} {c : σ → ι → Prop}

/-- One more step. -/
theorem foldlM_snoc {pre : List ι} {op : ι} {s : σ} (h : pre.foldlM step init = .ok s) :
    (pre ++ [op]).foldlM step init = step s op := by
  rw [List.foldlM_append, h]
  show (step s op >>= fun s' => [].foldlM step s') = _
  cases step s op <;> rfl

/-- The beginning of a run meets its conditions, too. -/
theorem StepsMeet.of_prefix {ops pre : List ι} (h : StepsMeet step init c ops)
    (hpre : pre <+: ops) : StepsMeet step init c pre :=
  fun p op hp => h p op (hp.trans hpre)

/-- The run rule. The induction is on the steps, from the end. -/
theorem StepsMeet.yields_run {ops : List ι} (hinit : P init)
    (hstep : ∀ s op, op ∈ ops → P s → c s op → Yields (step s op) P)
    (h : StepsMeet step init c ops) : Yields (ops.foldlM step init) P := by
  induction ops using List.reverseRecOn with
  | nil => exact hinit
  | append_singleton ops op ih =>
    have hrun := ih (fun s op' hop => hstep s op' (List.mem_append_left _ hop))
      (h.of_prefix (List.prefix_append ops [op]))
    cases heq : ops.foldlM step init with
    | error e =>
      rw [List.foldlM_append, heq]
      rw [heq] at hrun
      exact hrun
    | ok s =>
      rw [foldlM_snoc heq]
      exact hstep s op List.mem_concat_self (hrun.value heq) (h ops op (List.prefix_refl _) s heq)

/-- A run whose points are all fine meets all conditions. Before the first step that does not, the
state satisfies `P`, and the step itself then shows. -/
theorem Throughout.stepsMeet {ops : List ι} (hinit : P init)
    (hstep : ∀ s op, op ∈ ops → P s → FineIff P Q (c s op) (step s op))
    (h : Throughout step init Q ops) : StepsMeet step init c ops := by
  induction ops using List.reverseRecOn with
  | nil =>
    intro pre op hpre
    simp at hpre
  | append_singleton ops last ih =>
    have hinner : ∀ s op, op ∈ ops → P s → FineIff P Q (c s op) (step s op) :=
      fun s op hop => hstep s op (List.mem_append_left _ hop)
    have hops : StepsMeet step init c ops :=
      ih hinner fun pre hpre => h pre (hpre.trans (List.prefix_append ops [last]))
    intro pre op hpre s hrun
    rcases List.prefix_concat_iff.mp hpre with heq | hpre
    · -- The last step.
      obtain ⟨rfl, hop⟩ := List.append_inj' heq rfl
      obtain rfl := (List.cons.inj hop).1
      have hP : P s :=
        (hops.yields_run hinit fun s op hop hs => (hinner s op hop hs).yields).value hrun
      by_contra hc
      refine (hstep s op List.mem_concat_self hP).only hc ?_
      obtain ⟨hbounds, hQ⟩ := h (pre ++ [op]) (List.prefix_refl _)
      rw [foldlM_snoc hrun] at hbounds hQ
      cases hres : step s op with
      | ok s' => exact hQ s' hres
      | error e =>
        cases e with
        | noMemory => trivial
        | outOfBounds => exact absurd hres hbounds.1
        | deleted => exact absurd hres hbounds.2
    · exact hops pre op hpre s hrun

/-- All points of a run are fine if and only if every step meets its condition. -/
theorem throughout_iff (hinit : P init) (hQ : ∀ s, P s → Q s) (ops : List ι)
    (hstep : ∀ s op, op ∈ ops → P s → FineIff P Q (c s op) (step s op)) :
    Throughout step init Q ops ↔ StepsMeet step init c ops := by
  constructor
  · exact fun h => h.stepsMeet hinit hstep
  · intro h pre hpre
    have hrun := (h.of_prefix hpre).yields_run hinit fun s op hop hs =>
      (hstep s op (hpre.subset hop) hs).yields
    exact ⟨hrun.faultless, fun s hs => hQ s (hrun.value hs)⟩

/-- A run whose steps end at a read of a deleted array. The induction is on the steps. -/
theorem foldlM_ignoreDeleted (ops : List ι) (s : σ) :
    ops.foldlM (fun s op => ignoreDeleted (step s op)) s = ignoreDeleted (ops.foldlM step s) := by
  induction ops generalizing s with
  | nil => rfl
  | cons op ops ih =>
    rw [List.foldlM_cons, List.foldlM_cons, ignoreDeleted_bind]
    exact bind_congr fun s' => ih s'

/-- Such a run meets its conditions where the run itself does. -/
theorem stepsMeet_ignoreDeleted_iff {ops : List ι} :
    StepsMeet (fun s op => ignoreDeleted (step s op)) init c ops ↔ StepsMeet step init c ops := by
  refine forall_congr' fun pre => forall_congr' fun op => imp_congr_right fun _ => ?_
  simp only [foldlM_ignoreDeleted, ignoreDeleted_eq_ok_iff]

/-- The rule for bounds: no point of a run leaves an array, and `Q` holds at all of them, if and
only if every step meets its condition. -/
theorem throughout_ignoreDeleted_iff (hinit : P init) (hQ : ∀ s, P s → Q s) (ops : List ι)
    (hstep : ∀ s op, P s → FineIff P Q (c s op) (ignoreDeleted (step s op))) :
    (∀ pre, pre <+: ops → pre.foldlM step init ≠ .error .outOfBounds ∧
      ∀ s, pre.foldlM step init = .ok s → Q s) ↔ StepsMeet step init c ops := by
  rw [← stepsMeet_ignoreDeleted_iff, ← throughout_iff hinit hQ ops fun s op _ => hstep s op]
  refine forall_congr' fun pre => imp_congr_right fun _ => ?_
  rw [foldlM_ignoreDeleted, faultless_ignoreDeleted_iff]
  simp only [ignoreDeleted_eq_ok_iff]

end

/-! ### Runs beside a specification -/

section
variable {σ τ ι : Type} (step : σ → ι → Except BufferFault σ) (spec : τ → ι → τ) (init : σ)
  (init' : τ)

/-- A step of the program, with the step that is meant next to it. -/
def beside (st : σ × τ) (op : ι) : Except BufferFault (σ × τ) :=
  (step st.1 op).map fun s => (s, spec st.2 op)

/-- At every point of the run there was no fault, and `Q` relates the state to the meant one. -/
def ThroughoutBeside (Q : σ → τ → Prop) (ops : List ι) : Prop :=
  ∀ pre, pre <+: ops → Faultless (pre.foldlM step init) ∧
    ∀ s, pre.foldlM step init = .ok s → Q s (pre.foldl spec init')

variable {step spec}

/-- The second run does not disturb the first. The induction is on the steps. -/
theorem foldlM_beside (ops : List ι) (s : σ) (t : τ) :
    ops.foldlM (beside step spec) (s, t) =
      (ops.foldlM step s).map fun s' => (s', ops.foldl spec t) := by
  induction ops generalizing s t with
  | nil => rfl
  | cons op ops ih =>
    rw [List.foldlM_cons, List.foldlM_cons, List.foldl_cons]
    unfold beside
    cases hs : step s op with
    | error e => rfl
    | ok s' => exact ih s' (spec t op)

variable {init init'}

/-- A run that is fine beside the specification is one of pairs that is fine. -/
theorem throughout_beside_iff {Q : σ → τ → Prop} {ops : List ι} :
    Throughout (beside step spec) (init, init') (fun st => Q st.1 st.2) ops ↔
      ThroughoutBeside step spec init init' Q ops := by
  refine forall_congr' fun pre => imp_congr_right fun _ => ?_
  rw [foldlM_beside]
  cases pre.foldlM step init with
  | error e => simp [Except.map, Faultless]
  | ok s => simp [Except.map, Faultless]

/-- Conditions on the first state only. -/
theorem stepsMeet_beside_iff {c : σ → ι → Prop} {ops : List ι} :
    StepsMeet (beside step spec) (init, init') (fun st op => c st.1 op) ops ↔
      StepsMeet step init c ops := by
  refine forall_congr' fun pre => forall_congr' fun op => imp_congr_right fun _ => ?_
  rw [foldlM_beside]
  cases pre.foldlM step init with
  | error e => simp [Except.map]
  | ok s => simp [Except.map]

/-- All points of a run are related to the specification if and only if every step meets its
condition. -/
theorem throughoutBeside_iff {P Q : σ → τ → Prop} {c : σ → ι → Prop} (hinit : P init init')
    (hQ : ∀ s t, P s t → Q s t) (ops : List ι)
    (hstep : ∀ s t op, op ∈ ops → P s t → FineIff (fun s' => P s' (spec t op))
      (fun s' => Q s' (spec t op)) (c s op) (step s op)) :
    ThroughoutBeside step spec init init' Q ops ↔ StepsMeet step init c ops := by
  have hpair : ∀ (st : σ × τ) (op : ι), op ∈ ops → P st.1 st.2 →
      FineIff (fun st => P st.1 st.2) (fun st => Q st.1 st.2) (c st.1 op)
        (beside step spec st op) := by
    rintro ⟨s, t⟩ op hop h
    exact (hstep s t op hop h).map (fun s' hs' => hs') fun s' hs' => hs'
  have hruns : Throughout (beside step spec) (init, init') (fun st => Q st.1 st.2) ops ↔
      StepsMeet (beside step spec) (init, init') (fun st op => c st.1 op) ops :=
    throughout_iff (P := fun st => P st.1 st.2) hinit (fun st => hQ st.1 st.2) ops hpair
  exact throughout_beside_iff.symm.trans (hruns.trans stepsMeet_beside_iff)

end

end KernelEventsTrace
