/-!
# `KernelEventsTrace.Lib.Loop`: loops with a bound on their rounds

`whileLoop test body exit n s` is `while (test) body`, for at most `n` rounds. A round goes on
with new variables, or returns out of the loop. The loop has no result (`none`) if it would need
more rounds.

`whileLoop_rule` is the rule for total correctness: the rounds keep an invariant and make a
measure smaller. The measure then bounds the number of rounds.
-/

set_option autoImplicit false

namespace KernelEventsTrace

variable {σ β ε : Type}

/-- `while (test) body`. The last argument is the state of its variables. -/
def whileLoop (test : σ → Bool) (body : σ → Except ε (σ ⊕ β)) (exit : σ → β) :
    Nat → σ → Except ε (Option β)
  | 0, s => if test s then .ok none else .ok (some (exit s))
  | n + 1, s =>
    if test s then
      match body s with
      | .error e => .error e
      | .ok (.inl s') => whileLoop test body exit n s'
      | .ok (.inr b) => .ok (some b)
    else .ok (some (exit s))

variable {test : σ → Bool} {body : σ → Except ε (σ ⊕ β)} {exit : σ → β}

/-- The test fails. -/
theorem whileLoop_of_exit {s : σ} (h : test s = false) (n : Nat) :
    whileLoop test body exit n s = .ok (some (exit s)) := by
  cases n <;> simp [whileLoop, h]

/-- A round that goes on. -/
theorem whileLoop_of_next {s s' : σ} (h : test s = true) (hbody : body s = .ok (.inl s'))
    (n : Nat) : whileLoop test body exit (n + 1) s = whileLoop test body exit n s' := by
  simp [whileLoop, h, hbody]

/-- A round that returns. -/
theorem whileLoop_of_return {s : σ} {b : β} (h : test s = true) (hbody : body s = .ok (.inr b))
    (n : Nat) : whileLoop test body exit (n + 1) s = .ok (some b) := by
  simp [whileLoop, h, hbody]

/-- What a round is allowed to do: go on with the invariant and a smaller measure, or return a
value with the property. -/
def RoundMeets (I : σ → Prop) (Q : β → Prop) (μ : σ → Nat) (s : σ) (x : Except ε (σ ⊕ β)) : Prop :=
  (∃ s', x = .ok (.inl s') ∧ I s' ∧ μ s' < μ s) ∨ ∃ b, x = .ok (.inr b) ∧ Q b

/-- The rule of the loop. The induction is on the number of rounds that are allowed. -/
theorem whileLoop_rule {I : σ → Prop} {Q : β → Prop} (μ : σ → Nat)
    (hpos : ∀ s, I s → test s = true → 0 < μ s)
    (hbody : ∀ s, I s → test s = true → RoundMeets I Q μ s (body s))
    (hexit : ∀ s, I s → test s = false → Q (exit s)) {n : Nat} {s : σ} (hI : I s) (hn : μ s ≤ n) :
    ∃ b, whileLoop test body exit n s = .ok (some b) ∧ Q b := by
  induction n generalizing s with
  | zero =>
    cases htest : test s with
    | false => exact ⟨_, whileLoop_of_exit htest 0, hexit s hI htest⟩
    | true =>
      have hlt := hpos s hI htest
      omega
  | succ n ih =>
    cases htest : test s with
    | false => exact ⟨_, whileLoop_of_exit htest _, hexit s hI htest⟩
    | true =>
      cases hbody s hI htest with
      | inl hnext =>
        obtain ⟨s', hs', hI', hlt⟩ := hnext
        rw [whileLoop_of_next htest hs']
        exact ih hI' (by omega)
      | inr hreturn =>
        obtain ⟨b, hb, hQ⟩ := hreturn
        exact ⟨b, whileLoop_of_return htest hb n, hQ⟩

end KernelEventsTrace
