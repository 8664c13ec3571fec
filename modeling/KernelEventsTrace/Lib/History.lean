import Mathlib.Data.List.Induction

/-!
# `KernelEventsTrace.Lib.History`: conditions on the steps of a run

A run makes steps one after the other, and a step may be impossible. `AtEachStep` states a
condition of every step, which may speak of the steps before it, of the state that they lead to,
and of the step itself.

`AtEachStep.inv` is the rule for invariants. If every step that meets its condition keeps the
invariant, the invariant holds after a run whose steps all meet theirs. `AtEachStep.imp` derives
another condition of each step from it.
-/

set_option autoImplicit false

namespace KernelEventsTrace

section
variable {σ ι : Type} (step : σ → ι → Option σ) (init : σ)

/-- Each step of the run meets the condition, with the steps before it and the state that they
lead to. -/
def AtEachStep (c : List ι → σ → ι → Prop) (ops : List ι) : Prop :=
  ∀ pre op, pre ++ [op] <+: ops → ∀ s, pre.foldlM step init = some s → c pre s op

variable {step init} {c d : List ι → σ → ι → Prop} {I : List ι → σ → Prop}

/-- Before the first step. -/
theorem atEachStep_nil : AtEachStep step init c [] := by
  intro pre op hpre
  simp at hpre

/-- One more step, in the state that the run leads to. -/
theorem atEachStep_snoc_iff {ops : List ι} {op : ι} :
    AtEachStep step init c (ops ++ [op]) ↔
      AtEachStep step init c ops ∧ ∀ s, ops.foldlM step init = some s → c ops s op := by
  constructor
  · intro h
    exact ⟨fun pre op' hpre => h pre op' (hpre.trans (List.prefix_append ops [op])),
      h ops op (List.prefix_refl _)⟩
  · intro h pre op' hpre s hrun
    rcases List.prefix_concat_iff.mp hpre with heq | hpre
    · -- The last step.
      obtain ⟨rfl, hop⟩ := List.append_inj' heq rfl
      obtain rfl := (List.cons.inj hop).1
      exact h.2 s hrun
    · exact h.1 pre op' hpre s hrun

/-- The rule for invariants. The induction is on the steps, from the end. -/
theorem AtEachStep.inv (hinit : I [] init)
    (hstep : ∀ ops s op s', I ops s → c ops s op → step s op = some s' → I (ops ++ [op]) s')
    {ops : List ι} (h : AtEachStep step init c ops) {s : σ}
    (hrun : ops.foldlM step init = some s) : I ops s := by
  induction ops using List.reverseRecOn generalizing s with
  | nil =>
    obtain rfl := Option.some.inj hrun
    exact hinit
  | append_singleton ops op ih =>
    obtain ⟨hops, hlast⟩ := atEachStep_snoc_iff.mp h
    rw [List.foldlM_append] at hrun
    cases hpre : ops.foldlM step init with
    | none =>
      rw [hpre] at hrun
      cases hrun
    | some s₀ =>
      have hop : step s₀ op = some s := by
        rw [hpre] at hrun
        simpa using hrun
      exact hstep ops s₀ op s (ih hops hpre) (hlast s₀ hpre) hop

/-- What follows from the invariant and the condition of a step holds at each step. -/
theorem AtEachStep.imp (hinit : I [] init)
    (hstep : ∀ ops s op s', I ops s → c ops s op → step s op = some s' → I (ops ++ [op]) s')
    (himp : ∀ ops s op, I ops s → c ops s op → d ops s op) {ops : List ι}
    (h : AtEachStep step init c ops) : AtEachStep step init d ops := by
  intro pre op hpre s hrun
  have hbefore : AtEachStep step init c pre := fun pre' op' hpre' =>
    h pre' op' (hpre'.trans ((List.prefix_append pre [op]).trans hpre))
  exact himp pre s op (hbefore.inv hinit hstep hrun) (h pre op hpre s hrun)

end

end KernelEventsTrace
