import Mathlib.Logic.Relator

/-!
# `KernelEventsTrace.Lib.Simulation`: one fallible program simulates another

`Sim R x x'` says that if `x` succeeds, so does `x'`, with a result related by `R`. Its rules
follow the structure of a program: a result, a bind, a test and a failure. A proof that one
program simulates another goes through both of them in step.
-/

set_option autoImplicit false

namespace KernelEventsTrace.Simulation

variable {ε ε' α α' β β' : Type}

/-- If `x` succeeds, then `x'` succeeds with a related result. -/
def Sim (R : α → α' → Prop) (x : Except ε α) (x' : Except ε' α') : Prop :=
  ∀ a, x = .ok a → ∃ a', x' = .ok a' ∧ R a a'

namespace Sim

variable {R : α → α' → Prop} {S : β → β' → Prop}

/-- Two results that belong together. -/
theorem ok {a : α} {a' : α'} (h : R a a') : Sim R (.ok a : Except ε α) (.ok a' : Except ε' α') := by
  intro b hb
  obtain rfl := Except.ok.inj hb
  exact ⟨a', rfl, h⟩

/-- Two programs that return at once. -/
theorem pure {a : α} {a' : α'} (h : R a a') :
    Sim R (Pure.pure a : Except ε α) (Pure.pure a' : Except ε' α') := Sim.ok h

/-- Two programs, one after the other on both sides. -/
theorem bind {x : Except ε α} {x' : Except ε' α'} {g : α → Except ε β} {g' : α' → Except ε' β'}
    (hx : Sim R x x') (hg : ∀ a a', R a a' → Sim S (g a) (g' a')) :
    Sim S (x >>= g) (x' >>= g') := by
  intro b hb
  cases x with
  | error e => cases hb
  | ok a =>
    obtain ⟨a', rfl, ha⟩ := hx a rfl
    exact hg a a' ha b hb

/-- Two steps that do not depend on each other, in the other order. -/
theorem bind_swap {γ γ' : Type} {T : γ → γ' → Prop} {x : Except ε α} {y : Except ε β}
    {x' : Except ε' α'} {y' : Except ε' β'} {g : α → β → Except ε γ}
    {g' : β' → α' → Except ε' γ'} (hx : Sim R x x') (hy : Sim S y y')
    (hg : ∀ a a' b b', R a a' → S b b' → Sim T (g a b) (g' b' a')) :
    Sim T (x >>= fun a => y >>= fun b => g a b) (y' >>= fun b' => x' >>= fun a' => g' b' a') := by
  intro c hc
  cases x with
  | error e => cases hc
  | ok a =>
    cases y with
    | error e => cases hc
    | ok b =>
      obtain ⟨a', rfl, ha⟩ := hx a rfl
      obtain ⟨b', rfl, hb⟩ := hy b rfl
      exact hg a a' b b' ha hb c hc

/-- A test on both sides. -/
theorem ite {c c' : Prop} [Decidable c] [Decidable c'] {x y : Except ε α} {x' y' : Except ε' α'}
    (hc : c ↔ c') (hx : Sim R x x') (hy : Sim R y y') :
    Sim R (if c then x else y) (if c' then x' else y') := by
  by_cases h : c
  · rw [if_pos h, if_pos (hc.mp h)]
    exact hx
  · rw [if_neg h, if_neg fun h' => h (hc.mpr h')]
    exact hy

/-- A bind after a test, whose continuation the second program has in both branches. -/
theorem bind_ite {x : Except ε α} {g : α → Except ε β} {c' : Prop} [Decidable c']
    {x' y' : Except ε' α'} {g' : α' → Except ε' β'} (hx : Sim R x (if c' then x' else y'))
    (hg : ∀ a a', R a a' → Sim S (g a) (g' a')) :
    Sim S (x >>= g) (if c' then x' >>= g' else y' >>= g') := by
  have h := Sim.bind hx hg
  by_cases hc : c'
  · rw [if_pos hc] at h ⊢
    exact h
  · rw [if_neg hc] at h ⊢
    exact h

/-- A bind after a test, whose continuation both programs have in both branches. -/
theorem ite_bind {c c' : Prop} [Decidable c] [Decidable c'] {x y : Except ε α}
    {g : α → Except ε β} {x' y' : Except ε' α'} {g' : α' → Except ε' β'}
    (hx : Sim R (if c then x else y) (if c' then x' else y'))
    (hg : ∀ a a', R a a' → Sim S (g a) (g' a')) :
    Sim S (if c then x >>= g else y >>= g) (if c' then x' >>= g' else y' >>= g') := by
  have h := bind_ite hx hg
  by_cases hc : c
  · rw [if_pos hc] at h ⊢
    exact h
  · rw [if_neg hc] at h ⊢
    exact h

/-- A program that fails is simulated by every program. -/
theorem error {e : ε} {x' : Except ε' α'} : Sim R (.error e : Except ε α) x' := by
  intro a ha
  cases ha

/-- A test that only the first program makes, in front of a failure. -/
theorem guard {c : Prop} [Decidable c] {e : ε} {y : Except ε α} {y' : Except ε' α'}
    (hy : Sim R y y') : Sim R (if c then (.error e) else y) y' := by
  by_cases h : c
  · rw [if_pos h]
    exact error
  · rw [if_neg h]
    exact hy

end Sim

end KernelEventsTrace.Simulation
