import Mathlib.Data.Fintype.Defs
import Mathlib.Logic.Function.Basic
import Mathlib.Logic.Relation

/-!
# `KernelEventsTrace.Lib.Callbacks`: a program whose callbacks run beside it

A program is a list of statements. While a callback is registered, any number of its calls may
begin, at any point of the program, and each of them ends at some later point. A statement can wait
for the calls of a callback: it is not executed before all of them have ended.

`Disciplined` is a condition on the program alone. At each of its points, what a registered callback
uses is there, and a statement that takes a callback out waits for its calls. Then no call ever
misses what it uses (`Disciplined.uses`), whatever the order of the steps is.
-/

set_option autoImplicit false

namespace KernelEventsTrace

/-- The statements `ι` on a state `σ`, and the callbacks `κ`. -/
structure CallbackSystem (σ ι κ : Type) where
  exec : σ → ι → σ
  registered : σ → κ → Bool
  /-- What a callback uses is there. -/
  uses : σ → κ → Bool
  /-- The statement waits until no call of the callback is left. -/
  waits : ι → κ → Bool

namespace CallbackSystem

/-- A point of a run, with the number of calls of each callback that have begun and not ended. -/
structure Config (σ ι κ : Type) where
  state : σ
  running : κ → Nat
  rest : List ι

variable {σ ι κ : Type} (sys : CallbackSystem σ ι κ)

/-- The start of a program. -/
def start (s : σ) (program : List ι) : Config σ ι κ := ⟨s, fun _ => 0, program⟩

/-- A call begins or ends, or the next statement is executed. -/
inductive Step [DecidableEq κ] : Config σ ι κ → Config σ ι κ → Prop where
  | begin {cfg : Config σ ι κ} (c : κ) : sys.registered cfg.state c = true →
      Step cfg { cfg with running := Function.update cfg.running c (cfg.running c + 1) }
  | finish {cfg : Config σ ι κ} (c : κ) : 0 < cfg.running c →
      Step cfg { cfg with running := Function.update cfg.running c (cfg.running c - 1) }
  | statement {s : σ} {running : κ → Nat} {op : ι} {rest : List ι} :
      (∀ c, sys.waits op c = true → running c = 0) →
      Step ⟨s, running, op :: rest⟩ ⟨sys.exec s op, running, rest⟩

/-- The points that a program can get to. -/
def Reachable [DecidableEq κ] (s : σ) (program : List ι) : Config σ ι κ → Prop :=
  Relation.ReflTransGen sys.Step (start s program)

/-- At every point of the program, what the registered callbacks use is there, and the next
statement waits for those it takes out. -/
def Disciplined : σ → List ι → Prop
  | s, [] => ∀ c, sys.registered s c = true → sys.uses s c = true
  | s, op :: rest =>
    (∀ c, sys.registered s c = true → sys.uses s c = true) ∧
      (∀ c, sys.registered s c = true → sys.registered (sys.exec s op) c = false →
        sys.waits op c = true) ∧
      Disciplined (sys.exec s op) rest

/-- The condition can be computed. -/
instance decidableDisciplined [Fintype κ] :
    (s : σ) → (program : List ι) → Decidable (sys.Disciplined s program)
  | s, [] =>
    inferInstanceAs (Decidable (∀ c, sys.registered s c = true → sys.uses s c = true))
  | s, op :: rest =>
    have := decidableDisciplined (sys.exec s op) rest
    inferInstanceAs (Decidable (_ ∧ _ ∧ sys.Disciplined (sys.exec s op) rest))

variable {sys} {s : σ} {program : List ι}

/-- What a registered callback uses is there. -/
theorem Disciplined.uses_of_registered (h : sys.Disciplined s program) {c : κ}
    (hc : sys.registered s c = true) : sys.uses s c = true := by
  cases program with
  | nil => exact h c hc
  | cons op rest => exact h.1 c hc

variable [DecidableEq κ]

/-- The rest of the program is disciplined, and only registered callbacks have calls. -/
structure Orderly (sys : CallbackSystem σ ι κ) (cfg : Config σ ι κ) : Prop where
  disciplined : sys.Disciplined cfg.state cfg.rest
  registered : ∀ c, 0 < cfg.running c → sys.registered cfg.state c = true

/-- A step of the program or of a callback keeps the order. -/
theorem Orderly.step {cfg cfg' : Config σ ι κ} (h : sys.Orderly cfg) (hstep : sys.Step cfg cfg') :
    sys.Orderly cfg' := by
  cases hstep with
  | begin c hc =>
    refine ⟨h.disciplined, fun d hd => ?_⟩
    by_cases heq : d = c
    · exact heq ▸ hc
    · dsimp only at hd
      rw [Function.update_of_ne heq] at hd
      exact h.registered d hd
  | finish c hc =>
    refine ⟨h.disciplined, fun d hd => ?_⟩
    by_cases heq : d = c
    · exact heq ▸ h.registered c hc
    · dsimp only at hd
      rw [Function.update_of_ne heq] at hd
      exact h.registered d hd
  | @statement s running op rest hwait =>
    obtain ⟨-, hout, hrest⟩ := h.disciplined
    refine ⟨hrest, fun c hc => ?_⟩
    cases hreg : sys.registered (sys.exec s op) c with
    | true => rfl
    | false =>
      -- The statement has waited for the calls of what it takes out.
      have hzero := hwait c (hout c (h.registered c hc) hreg)
      dsimp only at hc
      omega

/-- The induction is on the run. -/
theorem Disciplined.orderly (h : sys.Disciplined s program) {cfg : Config σ ι κ}
    (hcfg : sys.Reachable s program cfg) : sys.Orderly cfg := by
  induction hcfg with
  | refl => exact ⟨h, fun c hc => absurd hc (Nat.lt_irrefl 0)⟩
  | tail _ hstep ih => exact ih.step hstep

/-- In a disciplined program no call misses what it uses. -/
theorem Disciplined.uses (h : sys.Disciplined s program) {cfg : Config σ ι κ}
    (hcfg : sys.Reachable s program cfg) {c : κ} (hc : 0 < cfg.running c) :
    sys.uses cfg.state c = true :=
  (h.orderly hcfg).disciplined.uses_of_registered ((h.orderly hcfg).registered c hc)

/-- A program can be executed without any call. -/
theorem reachable_end (s : σ) (program : List ι) :
    sys.Reachable s program ⟨program.foldl sys.exec s, fun _ => 0, []⟩ := by
  induction program generalizing s with
  | nil => exact .refl
  | cons op rest ih => exact .head (.statement fun _ _ => rfl) (ih (sys.exec s op))

/-- If the program ends with a registered callback, a call of it can begin after its end. -/
theorem reachable_call {c : κ} (hc : sys.registered (program.foldl sys.exec s) c = true) :
    ∃ cfg : Config σ ι κ, sys.Reachable s program cfg ∧
      cfg.state = program.foldl sys.exec s ∧ 0 < cfg.running c := by
  refine ⟨_, (reachable_end s program).tail (.begin c hc), rfl, ?_⟩
  dsimp only
  rw [Function.update_self]
  exact Nat.zero_lt_succ _

end CallbackSystem

end KernelEventsTrace
