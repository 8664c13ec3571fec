import Mathlib.Algebra.BigOperators.Group.Multiset.Basic

/-!
# `KernelEventsTrace.Lib.References`: programs that hold references

A program takes references to objects and releases them. `Holding` keeps what is held as a
multiset, since one object can be held more than once. The release of what is not held is a fault.

`Ends p x out q` says that the program `x`, started with the references `p`, ends with `out` and
the references `q`. The statement is about every state in which `p` is a part of what is held, and
leaves the other part as it is. So it can be used in a larger program as it stands (`Ends.frame`),
and a sequence of calls leaves behind the sum of what its calls leave behind (`Ends.mapM`).
-/

set_option autoImplicit false

namespace KernelEventsTrace

variable {ρ ε α β γ : Type}

/-- Programs over the references that are held. -/
abbrev Holding (ρ ε α : Type) := StateT (Multiset ρ) (Except ε) α

namespace Holding

/-- A reference is taken. -/
def acquire (r : ρ) : Holding ρ ε Unit := fun held => .ok ((), r ::ₘ held)

/-- The fault is for a reference that is not held. -/
def release [DecidableEq ρ] (notHeld : ε) (r : ρ) : Holding ρ ε Unit := fun held =>
  if r ∈ held then .ok ((), held.erase r) else .error notHeld

/-- A program that holds nothing. -/
def lift (x : Except ε α) : Holding ρ ε α := fun held => x.map fun a => (a, held)

end Holding

/-- The program turns the references `p` into `q` and ends with `out`, whatever else is held. -/
def Ends (p : Multiset ρ) (x : Holding ρ ε α) (out : Except ε α) (q : Multiset ρ) : Prop :=
  ∀ held, x (p + held) = out.map fun a => (a, q + held)

namespace Ends

variable {p q r : Multiset ρ} {x : Holding ρ ε α} {f : α → Holding ρ ε β} {a : α} {e : ε}
  {out : Except ε α} {out' : Except ε β} {s : ρ}

/-- A result alone holds nothing. -/
theorem pure (p : Multiset ρ) (a : α) : Ends p (Pure.pure a : Holding ρ ε α) (.ok a) p :=
  fun _ => rfl

/-- An error alone gives nothing back. -/
theorem throw (p q : Multiset ρ) (e : ε) :
    Ends p (MonadExcept.throw e : Holding ρ ε α) (.error e) q :=
  fun _ => rfl

/-- A program that holds nothing. -/
theorem lift {x : Except ε α} (h : x = out) (p : Multiset ρ) : Ends p (Holding.lift x) out p := by
  rw [h]
  exact fun _ => rfl

/-- A reference is held. -/
theorem acquire (p : Multiset ρ) (s : ρ) :
    Ends p (Holding.acquire s : Holding ρ ε Unit) (.ok ()) (s ::ₘ p) := by
  intro held
  show Except.ok ((), s ::ₘ (p + held)) = Except.ok ((), (s ::ₘ p) + held)
  rw [Multiset.cons_add]

/-- A reference that is held is given back. -/
theorem release [DecidableEq ρ] (e : ε) (h : p = s ::ₘ q) :
    Ends p (Holding.release e s) (.ok ()) q := by
  intro held
  have hmem : s ∈ p + held := by simp [h]
  have herase : (p + held).erase s = q + held := by
    rw [h, Multiset.cons_add, Multiset.erase_cons_head]
  show (if s ∈ p + held then Except.ok ((), (p + held).erase s) else Except.error e) = _
  rw [if_pos hmem, herase]
  rfl

/-- A program after another one. -/
theorem bind (h : Ends p x (.ok a) q) (hf : Ends q (f a) out' r) :
    Ends p (x >>= f) out' r := by
  intro held
  show (x (p + held) >>= fun s => f s.1 s.2) = _
  rw [h held]
  exact hf held

/-- An error ends the program. -/
theorem bind_error (h : Ends p x (.error e) q) (r : Multiset ρ) :
    Ends p (x >>= f) (.error e) r := by
  intro held
  show (x (p + held) >>= fun s => f s.1 s.2) = _
  rw [h held]
  rfl

/-- Behind a fault nothing is said about what is held. -/
theorem of_error (h : Ends p x (.error e) q) : Ends p x (.error e) r := h

/-- A reference that is held while a part of the program runs. -/
theorem bracket [DecidableEq ρ] {e : ε} (h : Ends (s ::ₘ p) x out (s ::ₘ q)) :
    Ends p (do
      Holding.acquire s
      let a ← x
      Holding.release e s
      return a) out q := by
  refine bind (acquire p s) ?_
  cases out with
  | error e => exact bind_error h q
  | ok a => exact bind h (bind (release _ rfl) (pure q a))

/-- What is held beside stays. -/
theorem frame (h : Ends p x out q) (r : Multiset ρ) : Ends (p + r) x out (q + r) := by
  intro held
  rw [add_assoc, add_assoc]
  exact h (r + held)

/-- The references can be written in another way. -/
theorem of_eq {p' q' : Multiset ρ} (h : Ends p x out q) (hp : p' = p) (hq : q = q') :
    Ends p' x out q' := by
  rw [hp, ← hq]
  exact h

/-- A sequence of calls that each leave something behind. -/
theorem mapM {f : γ → Holding ρ ε α} {g : γ → Except ε α} {d : γ → Multiset ρ}
    (h : ∀ c, Ends 0 (f c) (g c) (d c)) (calls : List γ) :
    Ends 0 (calls.mapM f) (calls.mapM g) (calls.map d).sum := by
  induction calls with
  | nil => exact pure 0 []
  | cons c calls ih =>
    rw [List.mapM_cons, List.mapM_cons, List.map_cons, List.sum_cons]
    cases hc : g c with
    | error e => exact bind_error (hc ▸ h c) _
    | ok a =>
      refine bind (hc ▸ h c) ?_
      -- The later calls hold what the first one has left behind.
      have hrest := (ih.frame (d c)).of_eq (zero_add _).symm (add_comm _ _)
      cases hs : calls.mapM g with
      | error e => exact bind_error (hs ▸ hrest) _
      | ok as => exact bind (hs ▸ hrest) (pure _ _)

/-- A sequence of calls that each leave nothing behind. -/
theorem mapM_zero {f : γ → Holding ρ ε α} {g : γ → Except ε α} (h : ∀ c, Ends 0 (f c) (g c) 0)
    (calls : List γ) : Ends 0 (calls.mapM f) (calls.mapM g) 0 := by
  have hzero : (calls.map fun _ => (0 : Multiset ρ)).sum = 0 := by simp
  rw [← hzero]
  exact (mapM h calls).of_eq hzero rfl

end Ends

end KernelEventsTrace
