import Mathlib.Logic.Function.Basic
import Mathlib.Tactic.Common

/-!
# `KernelEventsTrace.Lib.Locking`: programs that lock mutexes

A program makes operations on a shared state, and locks and unlocks mutexes between them. It is a
tree: what it does next depends on the result of the operation before. `Locking.eval` is what it
does when nothing else runs.

In a `ThreadPool` any number of programs run at the same time. One step is one operation of one
program, or the lock or unlock of a mutex. A program whose mutex is locked by another one waits.

A `Monitor` reads the actions of a program in their order and may reject one. `Obeys` says that it
rejects none on any path of the program, and what it knows at the end.
-/

set_option autoImplicit false

namespace KernelEventsTrace

variable {μ ω τ σ ε α β κ : Type} {ρ : ω → Type}

/-- Programs over the mutexes `μ` and operations `op` with results in `ρ op`. -/
inductive Locking (μ : Type) {ω : Type} (ρ : ω → Type) (α : Type) where
  | done (a : α)
  | lock (m : μ) (next : Locking μ ρ α)
  | unlock (m : μ) (next : Locking μ ρ α)
  | call (op : ω) (next : ρ op → Locking μ ρ α)

namespace Locking

/-- The program `f` behind another one. -/
def andThen : Locking μ ρ α → (α → Locking μ ρ β) → Locking μ ρ β
  | .done a, f => f a
  | .lock m next, f => .lock m (next.andThen f)
  | .unlock m next, f => .unlock m (next.andThen f)
  | .call op next, f => .call op fun r => (next r).andThen f

/-- Programs one after the other. -/
instance : Monad (Locking μ ρ) where
  pure := .done
  bind := andThen

/-- One operation. -/
def op (op : ω) : Locking μ ρ (ρ op) := .call op .done

/-- A section under a mutex. -/
def guarded (m : μ) (x : Locking μ ρ α) : Locking μ ρ α :=
  .lock m (x.andThen fun a => .unlock m (.done a))

section
variable (f : α → Locking μ ρ β) (m : μ)

/-- Nothing comes before. -/
@[simp] theorem done_andThen (a : α) : (done a : Locking μ ρ α).andThen f = f a := rfl

/-- A lock comes first. -/
@[simp] theorem lock_andThen (next : Locking μ ρ α) :
    (lock m next).andThen f = .lock m (next.andThen f) := rfl

/-- An unlock comes first. -/
@[simp] theorem unlock_andThen (next : Locking μ ρ α) :
    (unlock m next).andThen f = .unlock m (next.andThen f) := rfl

/-- An operation comes first. -/
@[simp] theorem call_andThen (op : ω) (next : ρ op → Locking μ ρ α) :
    (call op next).andThen f = .call op fun r => (next r).andThen f := rfl

/-- A single operation comes first. -/
@[simp] theorem op_andThen (o : ω) (f : ρ o → Locking μ ρ β) : (op o).andThen f = .call o f := rfl

/-- Three programs, one after the other. -/
theorem andThen_assoc {γ : Type} (x : Locking μ ρ α) (g : β → Locking μ ρ γ) :
    (x.andThen f).andThen g = x.andThen fun a => (f a).andThen g := by
  induction x with
  | done a => rfl
  | lock m next ih => exact congrArg (lock m) ih
  | unlock m next ih => exact congrArg (unlock m) ih
  | call op next ih => exact congrArg (call op) (funext ih)

/-- A section comes first. -/
@[simp] theorem guarded_andThen (x : Locking μ ρ α) :
    (guarded m x).andThen f = .lock m (x.andThen fun a => .unlock m (f a)) := by
  rw [guarded, lock_andThen, andThen_assoc]
  rfl

end

/-! ### A program alone -/

section
variable (exec : (op : ω) → σ → Except ε (ρ op × σ))

/-- What the program returns and leaves in the shared state when nothing else runs. -/
def eval : Locking μ ρ α → σ → Except ε (α × σ)
  | .done a, s => .ok (a, s)
  | .lock _ next, s => next.eval s
  | .unlock _ next, s => next.eval s
  | .call op next, s =>
    match exec op s with
    | .error e => .error e
    | .ok (r, s) => (next r).eval s

/-- An operation alone, and then what follows. -/
theorem eval_call (op : ω) (next : ρ op → Locking μ ρ α) (s : σ) :
    (call op next).eval exec s = exec op s >>= fun r => (next r.1).eval exec r.2 := by
  rw [eval]
  cases exec op s <;> rfl

end

/-! ### Monitors -/

/-- What a program does next. -/
inductive Action (μ ω : Type) where
  | lock (m : μ)
  | unlock (m : μ)
  | call (op : ω)

/-- The state of a monitor after an action, or `none` if it rejects the action. -/
abbrev Monitor (μ ω τ : Type) := τ → Action μ ω → Option τ

/-- From the state `t` on the monitor rejects no action of the program, and `post` holds at the
end. -/
def Obeys (monitor : Monitor μ ω τ) (post : τ → α → Prop) : τ → Locking μ ρ α → Prop
  | t, .done a => post t a
  | t, .lock m next => ∃ t', monitor t (.lock m) = some t' ∧ next.Obeys monitor post t'
  | t, .unlock m next => ∃ t', monitor t (.unlock m) = some t' ∧ next.Obeys monitor post t'
  | t, .call op next => ∃ t', monitor t (.call op) = some t' ∧ ∀ r, (next r).Obeys monitor post t'

/-- Two programs, one after the other, under one monitor. -/
theorem obeys_andThen {monitor : Monitor μ ω τ} {post : τ → β → Prop} (x : Locking μ ρ α)
    (f : α → Locking μ ρ β) (t : τ) : (x.andThen f).Obeys monitor post t ↔
      x.Obeys monitor (fun t a => (f a).Obeys monitor post t) t := by
  induction x generalizing t with
  | done a => exact Iff.rfl
  | lock m next ih => exact exists_congr fun t' => and_congr_right fun _ => ih t'
  | unlock m next ih => exact exists_congr fun t' => and_congr_right fun _ => ih t'
  | call op next ih =>
    exact exists_congr fun t' => and_congr_right fun _ => forall_congr' fun r => ih r t'

/-- The end of a program says more than it has to. -/
theorem Obeys.mono {monitor : Monitor μ ω τ} {post post' : τ → α → Prop} {x : Locking μ ρ α}
    {t : τ} (h : x.Obeys monitor post t) (hpost : ∀ t a, post t a → post' t a) :
    x.Obeys monitor post' t := by
  induction x generalizing t with
  | done a => exact hpost t a h
  | lock m next ih => exact h.imp fun t' ht' => ⟨ht'.1, ih ht'.2⟩
  | unlock m next ih => exact h.imp fun t' ht' => ⟨ht'.1, ih ht'.2⟩
  | call op next ih => exact h.imp fun t' ht' => ⟨ht'.1, fun r => ih r (ht'.2 r)⟩

/-- The action that a program does first. -/
def action : Locking μ ρ α → Option (Action μ ω)
  | .done _ => none
  | .lock m _ => some (.lock m)
  | .unlock m _ => some (.unlock m)
  | .call op _ => some (.call op)

end Locking

open Locking

/-! ### Programs that run at the same time -/

/-- The shared state, the program that has locked each mutex, and what is left of the programs. -/
structure ThreadPool (μ : Type) {ω : Type} (ρ : ω → Type) (σ α : Type) where
  shared : σ
  owner : μ → Option ℕ
  threads : List (Locking μ ρ α)

/-- What happens next: a program is started, or one of the programs makes a step. -/
inductive Move (κ : Type) where
  | start (c : κ)
  | step (i : ℕ)

/-- The programs that are started. -/
def Move.started : Move κ → Option κ
  | .start c => some c
  | .step _ => none

namespace ThreadPool

variable [DecidableEq μ] (exec : (op : ω) → σ → Except ε (ρ op × σ))

/-- A step of the program `i`. If it waits or has returned, nothing happens. -/
def step (s : ThreadPool μ ρ σ α) (i : ℕ) : Except ε (ThreadPool μ ρ σ α) :=
  match s.threads[i]? with
  | none => .ok s
  | some (.done _) => .ok s
  | some (.lock m next) =>
    if s.owner m = none then
      .ok ⟨s.shared, Function.update s.owner m (some i), s.threads.set i next⟩
    else .ok s
  | some (.unlock m next) =>
    .ok ⟨s.shared, Function.update s.owner m none, s.threads.set i next⟩
  | some (.call op next) =>
    match exec op s.shared with
    | .error e => .error e
    | .ok (r, shared) => .ok ⟨shared, s.owner, s.threads.set i (next r)⟩

/-- A program is started. -/
def start (s : ThreadPool μ ρ σ α) (x : Locking μ ρ α) : ThreadPool μ ρ σ α :=
  { s with threads := s.threads ++ [x] }

/-- One move. -/
def move (program : κ → Locking μ ρ α) (s : ThreadPool μ ρ σ α) :
    Move κ → Except ε (ThreadPool μ ρ σ α)
  | .start c => .ok (s.start (program c))
  | .step i => s.step exec i

/-- A schedule. -/
def run (program : κ → Locking μ ρ α) (s : ThreadPool μ ρ σ α) (moves : List (Move κ)) :
    Except ε (ThreadPool μ ρ σ α) :=
  moves.foldlM (move exec program) s

/-- The program `i` has something to do, and does not wait. -/
def Ready (s : ThreadPool μ ρ σ α) (i : ℕ) : Prop :=
  ∃ x, s.threads[i]? = some x ∧ ∃ action, x.action = some action ∧
    ∀ m, action = .lock m → s.owner m = none

/-- Every program has returned. -/
def Returned (s : ThreadPool μ ρ σ α) : Prop := ∀ x ∈ s.threads, ∃ a, x = .done a

variable {exec} {s : ThreadPool μ ρ σ α} {i : ℕ}

/-- A thread that has returned does nothing more. -/
theorem step_done {a : α} (h : s.threads[i]? = some (.done a)) : s.step exec i = .ok s := by
  simp only [step, h]

/-- A free mutex is locked. -/
theorem step_lock {m : μ} {next : Locking μ ρ α} (h : s.threads[i]? = some (.lock m next))
    (hfree : s.owner m = none) : s.step exec i =
      .ok ⟨s.shared, Function.update s.owner m (some i), s.threads.set i next⟩ := by
  simp only [step, h, if_pos hfree]

/-- A thread waits for a mutex that is locked, also if it has locked it itself. -/
theorem step_wait {m : μ} {next : Locking μ ρ α} (h : s.threads[i]? = some (.lock m next))
    (hlocked : s.owner m ≠ none) : s.step exec i = .ok s := by
  simp only [step, h, if_neg hlocked]

/-- A mutex is unlocked. -/
theorem step_unlock {m : μ} {next : Locking μ ρ α} (h : s.threads[i]? = some (.unlock m next)) :
    s.step exec i = .ok ⟨s.shared, Function.update s.owner m none, s.threads.set i next⟩ := by
  simp only [step, h]

/-- An operation changes the shared state. -/
theorem step_call {op : ω} {next : ρ op → Locking μ ρ α} {r : ρ op} {shared : σ}
    (h : s.threads[i]? = some (.call op next)) (hexec : exec op s.shared = .ok (r, shared)) :
    s.step exec i = .ok ⟨shared, s.owner, s.threads.set i (next r)⟩ := by
  simp only [step, h, hexec]

/-- A fault of an operation is the fault of the run. -/
theorem step_call_error {op : ω} {next : ρ op → Locking μ ρ α} {e : ε}
    (h : s.threads[i]? = some (.call op next)) (hexec : exec op s.shared = .error e) :
    s.step exec i = .error e := by
  simp only [step, h, hexec]

/-- Everything that a step can be. -/
theorem step_cases {s' : ThreadPool μ ρ σ α} (h : s.step exec i = .ok s') :
    (¬ s.Ready i ∧ s' = s) ∨
    (∃ m next, s.threads[i]? = some (.lock m next) ∧ s.owner m = none ∧
      s' = ⟨s.shared, Function.update s.owner m (some i), s.threads.set i next⟩) ∨
    (∃ m next, s.threads[i]? = some (.unlock m next) ∧
      s' = ⟨s.shared, Function.update s.owner m none, s.threads.set i next⟩) ∨
    (∃ op next r shared, s.threads[i]? = some (.call op next) ∧
      exec op s.shared = .ok (r, shared) ∧ s' = ⟨shared, s.owner, s.threads.set i (next r)⟩) := by
  cases hi : s.threads[i]? with
  | none =>
    simp only [step, hi] at h
    exact .inl ⟨fun hready => by simp [Ready, hi] at hready, (Except.ok.inj h).symm⟩
  | some x =>
    cases x with
    | done a =>
      rw [step_done hi] at h
      exact .inl ⟨fun hready => by simp [Ready, hi, action] at hready, (Except.ok.inj h).symm⟩
    | lock m next =>
      by_cases hfree : s.owner m = none
      · rw [step_lock hi hfree] at h
        exact .inr (.inl ⟨m, next, rfl, hfree, (Except.ok.inj h).symm⟩)
      · rw [step_wait hi hfree] at h
        exact .inl ⟨fun hready => by simp [Ready, hi, action, hfree] at hready,
          (Except.ok.inj h).symm⟩
    | unlock m next =>
      rw [step_unlock hi] at h
      exact .inr (.inr (.inl ⟨m, next, rfl, (Except.ok.inj h).symm⟩))
    | call op next =>
      cases hexec : exec op s.shared with
      | error e =>
        rw [step_call_error hi hexec] at h
        cases h
      | ok r =>
        rw [step_call hi hexec] at h
        exact .inr (.inr (.inr ⟨op, next, r.1, r.2, rfl, hexec, (Except.ok.inj h).symm⟩))

/-- A property of a pool that every move keeps holds after every schedule. -/
theorem run_induction {program : κ → Locking μ ρ α} {P : ThreadPool μ ρ σ α → Prop}
    {moves : List (Move κ)} (hstart : ∀ s c, .start c ∈ moves → P s → P (s.start (program c)))
    (hstep : ∀ s i s', P s → s.step exec i = .ok s' → P s')
    {s s' : ThreadPool μ ρ σ α} (h : P s) (hrun : s.run exec program moves = .ok s') : P s' := by
  induction moves generalizing s with
  | nil => exact Except.ok.inj hrun ▸ h
  | cons next moves ih =>
    have ih := @ih fun s c hc => hstart s c (List.mem_cons_of_mem next hc)
    rw [run, List.foldlM_cons] at hrun
    cases hmove : s.move exec program next with
    | error e =>
      rw [hmove] at hrun
      cases hrun
    | ok s1 =>
      rw [hmove] at hrun
      cases next with
      | start c => exact ih (Except.ok.inj hmove ▸ hstart s c List.mem_cons_self h) hrun
      | step i => exact ih (hstep s i s1 h hmove) hrun

end ThreadPool

end KernelEventsTrace
