import Mathlib.Logic.Function.Basic

/-!
# `KernelEventsTrace.Lib.Memo`: maps that remember what was found out

A program stores an answer under a key and gives it again later. `Within R m` says that every
stored value is in the relation `R` to its key. One more entry keeps it (`Within.insert`), one
entry less keeps it (`Within.erase`), and so does a run of steps that keep it (`Within.foldl`).
-/

set_option autoImplicit false

namespace KernelEventsTrace.Memo

variable {κ ν σ α : Type}

/-- Every stored value is in the relation to its key. -/
def Within (R : κ → ν → Prop) (m : κ → Option ν) : Prop := ∀ k v, m k = some v → R k v

variable {R : κ → ν → Prop} {m : κ → Option ν}

/-- The empty table has right values only. -/
theorem within_empty : Within R fun _ => none := by
  intro k v h
  cases h

section
variable [DecidableEq κ] {k : κ}

/-- A right value is added. -/
theorem Within.insert (h : Within R m) {v : ν} (hv : R k v) :
    Within R (Function.update m k (some v)) := by
  intro k' v' hv'
  by_cases hk : k' = k
  · subst hk
    rw [Function.update_self] at hv'
    exact Option.some.inj hv' ▸ hv
  · rw [Function.update_of_ne hk] at hv'
    exact h k' v' hv'

/-- A value is taken away. -/
theorem Within.erase (h : Within R m) : Within R (Function.update m k none) := by
  intro k' v' hv'
  by_cases hk : k' = k
  · subst hk
    rw [Function.update_self] at hv'
    cases hv'
  · rw [Function.update_of_ne hk] at hv'
    exact h k' v' hv'

end

/-- A run of steps, where `f s` is the map of the state `s`. -/
theorem Within.foldl {f : σ → κ → Option ν} {step : σ → α → σ} {l : List α} {s : σ}
    (h : Within R (f s)) (hstep : ∀ s, ∀ a ∈ l, Within R (f s) → Within R (f (step s a))) :
    Within R (f (l.foldl step s)) := by
  induction l generalizing s with
  | nil => exact h
  | cons a l ih =>
    have hnext : Within R (f (step s a)) := hstep s a (.head _) h
    exact ih hnext fun s' b hb => hstep s' b (.tail _ hb)

end KernelEventsTrace.Memo
