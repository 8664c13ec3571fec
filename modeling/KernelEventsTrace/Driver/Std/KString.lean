import Mathlib.Data.List.Infix

/-!
# `KernelEventsTrace.Driver.Std.KString`: the string of the driver

`String<T>` of `driver/std/string/string.h`, by its content: the characters below `Size()`, or
no buffer at all. A default-constructed string has no buffer. A copy of it has an empty one,
because the copy constructor allocates a terminator.

`isPrefixOf_iff` ties the loop of `IsPrefixOf` to the prefix order on lists.
-/

set_option autoImplicit false

namespace KernelEventsTrace.Driver.Std

/-- `String<T>`: without a buffer, or with its first `Size()` characters. -/
inductive KString (α : Type) where
  | null
  | of (elements : List α)
  deriving Repr, DecidableEq

/-- `WCHAR`. -/
abbrev WChar := UInt16

namespace KString

variable {α : Type}

/-- `Size()`. -/
def size : KString α → Nat
  | null => 0
  | of l => l.length

/-- The copy constructor. -/
def copy : KString α → KString α
  | null => of []
  | of l => of l

/-- `operator=` on a default-constructed string. An empty string fits into no space, so the
string stays without a buffer. -/
def assigned : KString α → KString α
  | of (a :: l) => of (a :: l)
  | _ => null

variable [DecidableEq α]

/-- The comparison loop of `IsPrefixOf`, over the characters of the first string. -/
def prefixLoop : List α → List α → Bool
  | a :: s, b :: t => if a ≠ b then false else prefixLoop s t
  | _, _ => true

/-- `IsPrefixOf`. -/
def isPrefixOf (s t : KString α) : Bool :=
  if s.size > t.size then false
  else
    match s, t with
    | of a, of b => prefixLoop a b
    | _, _ => false

/-- The loop compares as many characters as the first string has. -/
theorem prefixLoop_iff {s t : List α} (h : s.length ≤ t.length) :
    prefixLoop s t = true ↔ s <+: t := by
  induction s generalizing t with
  | nil => simp [prefixLoop]
  | cons a s ih =>
    cases t with
    | nil => simp at h
    | cons b t =>
      simp only [List.length_cons, Nat.add_le_add_iff_right] at h
      rw [List.cons_prefix_cons, ← ih h, prefixLoop]
      by_cases hab : a = b <;> simp [hab]

/-- A string is a prefix of another one if both have a buffer and the characters agree. -/
theorem isPrefixOf_iff {s t : KString α} :
    s.isPrefixOf t = true ↔ ∃ a b, s = of a ∧ t = of b ∧ a <+: b := by
  constructor
  · intro h
    cases s <;> cases t <;> simp only [isPrefixOf, ite_self, Bool.false_eq_true] at h
    rename_i a b
    refine ⟨a, b, rfl, rfl, ?_⟩
    by_cases hlen : size (of a) > size (of b)
    · rw [if_pos hlen] at h
      cases h
    · rw [if_neg hlen] at h
      exact (prefixLoop_iff (Nat.le_of_not_gt hlen)).mp h
  · rintro ⟨a, b, rfl, rfl, hab⟩
    have hlen : ¬ size (of a) > size (of b) := Nat.not_lt.mpr hab.length_le
    simp only [isPrefixOf, if_neg hlen]
    exact (prefixLoop_iff hab.length_le).mpr hab

end KString

end KernelEventsTrace.Driver.Std
