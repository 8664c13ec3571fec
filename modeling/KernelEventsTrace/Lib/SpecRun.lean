import Mathlib.Data.List.Induction

/-!
# `KernelEventsTrace.Lib.SpecRun`: programs that follow a specification

A program makes steps that return an answer, or fail. Its specification makes the same steps on an
abstract state and never fails. `Conforms step spec C s t ops` says that no step of the run `ops`
from `s` fails, and that each of them is right (`C`) for the abstract state that the steps before it
lead to from `t`.

`conforms_iff` is the rule for such runs: if a step in a state that satisfies the invariant is right
and keeps it under a condition, and fails otherwise, then a run conforms if and only if all of its
steps meet the condition.
-/

set_option autoImplicit false

namespace KernelEventsTrace

section
variable {σ τ ι ρ ε : Type} (step : σ → ι → Except ε (ρ × σ)) (spec : τ → ι → τ)

/-- The state after some steps. -/
def stateAfter (s : σ) (ops : List ι) : Except ε σ :=
  ops.foldlM (fun s op => (step s op).map Prod.snd) s

/-- No step fails, and all of them are right. -/
def Conforms (C : σ → τ → ι → ρ → σ → Prop) (s : σ) (t : τ) (ops : List ι) : Prop :=
  ∀ pre op, pre ++ [op] <+: ops → ∃ s₁ r s₂, stateAfter step s pre = .ok s₁ ∧
    step s₁ op = .ok (r, s₂) ∧ C s₁ (pre.foldl spec t) op r s₂

/-- Every step meets its condition, in the state before it. -/
def AllMeet (c : σ → ι → Prop) (s : σ) (ops : List ι) : Prop :=
  ∀ pre op, pre ++ [op] <+: ops → ∀ s₁, stateAfter step s pre = .ok s₁ → c s₁ op

/-- What a step does under a condition, and without it. -/
structure StepRule (I : σ → τ → Prop) (C : σ → τ → ι → ρ → σ → Prop) (c : σ → ι → Prop) :
    Prop where
  right : ∀ s t op, I s t → c s op → ∃ r s', step s op = .ok (r, s') ∧ C s t op r s' ∧
    I s' (spec t op)
  wrong : ∀ s t op, I s t → ¬ c s op → ∃ e, step s op = .error e

end

variable {σ τ ι ρ ε : Type} {step : σ → ι → Except ε (ρ × σ)} {spec : τ → ι → τ}
  {I : σ → τ → Prop} {C : σ → τ → ι → ρ → σ → Prop} {c : σ → ι → Prop} {s : σ} {t : τ}

/-- Nothing was done. -/
theorem stateAfter_nil (step : σ → ι → Except ε (ρ × σ)) (s : σ) :
    stateAfter step s [] = .ok s := rfl

/-- One more operation. -/
theorem stateAfter_snoc {pre : List ι} {op : ι} {s₁ s₂ : σ} {r : ρ}
    (hpre : stateAfter step s pre = .ok s₁) (hstep : step s₁ op = .ok (r, s₂)) :
    stateAfter step s (pre ++ [op]) = .ok s₂ := by
  unfold stateAfter at hpre ⊢
  rw [List.foldlM_append, hpre]
  show ((step s₁ op).map Prod.snd >>= fun s' => [].foldlM _ s') = _
  rw [hstep]
  rfl

/-- The beginning of a run meets its conditions, too. -/
theorem AllMeet.of_prefix {ops pre : List ι} (h : AllMeet step c s ops) (hpre : pre <+: ops) :
    AllMeet step c s pre :=
  fun before op hbefore => h before op (hbefore.trans hpre)

/-- A run whose steps meet their conditions keeps the invariant. The induction is on the steps, from
the end. -/
theorem AllMeet.invariant (hrule : StepRule step spec I C c) (hI : I s t) {ops : List ι}
    (h : AllMeet step c s ops) :
    ∃ s', stateAfter step s ops = .ok s' ∧ I s' (ops.foldl spec t) := by
  induction ops using List.reverseRecOn with
  | nil => exact ⟨s, stateAfter_nil step s, hI⟩
  | append_singleton ops op ih =>
    obtain ⟨s₁, hs₁, hI₁⟩ := ih (h.of_prefix (List.prefix_append ops [op]))
    obtain ⟨r, s₂, hstep, -, hI₂⟩ :=
      hrule.right s₁ _ op hI₁ (h ops op (List.prefix_refl _) s₁ hs₁)
    refine ⟨s₂, stateAfter_snoc hs₁ hstep, ?_⟩
    rw [List.foldl_append]
    exact hI₂

/-- A run conforms to its specification if and only if all of its steps meet their conditions. -/
theorem conforms_iff (hrule : StepRule step spec I C c) (hI : I s t) (ops : List ι) :
    Conforms step spec C s t ops ↔ AllMeet step c s ops := by
  constructor
  · intro h
    induction ops using List.reverseRecOn with
    | nil =>
      intro pre op hpre
      simp at hpre
    | append_singleton ops last ih =>
      have hops : AllMeet step c s ops :=
        ih fun pre op hpre => h pre op (hpre.trans (List.prefix_append ops [last]))
      intro pre op hpre s₁ hs₁
      rcases List.prefix_concat_iff.mp hpre with heq | hpre'
      · -- The last step. The steps before it have kept the invariant.
        obtain ⟨rfl, -⟩ := List.append_inj' heq rfl
        obtain ⟨s', hs', hI'⟩ := hops.invariant hrule hI
        obtain rfl := Except.ok.inj (hs'.symm.trans hs₁)
        obtain ⟨s₀, r, s₂, hs₀, hstep, -⟩ := h pre op hpre
        obtain rfl := Except.ok.inj (hs₀.symm.trans hs')
        -- If the step did not meet its condition, it would fail.
        by_contra hc
        obtain ⟨e, hfail⟩ := hrule.wrong _ _ op hI' hc
        rw [hfail] at hstep
        cases hstep
      · exact hops pre op hpre' s₁ hs₁
  · intro h pre op hpre
    obtain ⟨s₁, hs₁, hI₁⟩ :=
      (h.of_prefix ((List.prefix_append pre [op]).trans hpre)).invariant hrule hI
    obtain ⟨r, s₂, hstep, hC, -⟩ := hrule.right s₁ _ op hI₁ (h pre op hpre s₁ hs₁)
    exact ⟨s₁, r, s₂, hs₁, hstep, hC⟩

end KernelEventsTrace
