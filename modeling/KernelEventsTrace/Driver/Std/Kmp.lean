import KernelEventsTrace.Driver.Std.Pool
import KernelEventsTrace.Lib.Loop

/-!
# `KernelEventsTrace.Driver.Std.Kmp`: string matching in the driver

`KMPMatcher<T>` of `driver/std/algo/kmp.h`, statement by statement. A loop is given the number of
rounds it may take at most. It has no result if it needs more.

The indices of the two loops stay below the sizes, and do not wrap around.
-/

set_option autoImplicit false

namespace KernelEventsTrace.Driver.Std

open KernelEventsTrace (BufferFault Buffer whileLoop)

/-- `static_cast<size_t>(-1)`. -/
def notFound : Nat := 2 ^ 64 - 1

/-- The data members of `KMPMatcher<T>`. -/
structure KmpMatcher (α : Type) where
  text : Buffer α
  textSize : Nat
  pattern : Buffer α
  patternSize : Nat
  lps : Buffer Nat
  deriving Repr, DecidableEq

namespace KmpMatcher

/-- The variables of `ComputeLpsArray`, and the table. -/
structure LpsVars where
  length : Nat
  i : Nat
  lps : Buffer Nat
  deriving Repr, DecidableEq

/-- The variables of `KmpSearch`: the index for the text, and the one for the pattern. -/
structure SearchVars where
  i : Nat
  j : Nat
  deriving Repr, DecidableEq

variable {α : Type} [DecidableEq α]

/-- A round of `ComputeLpsArray`. -/
def lpsRound (pattern : Buffer α) (v : LpsVars) : Except BufferFault LpsVars := do
  if (← pattern.read v.i) = (← pattern.read v.length) then
    let length := v.length + 1
    return ⟨length, v.i + 1, ← v.lps.write v.i length⟩
  else if v.length ≠ 0 then
    return { v with length := ← v.lps.read (v.length - 1) }
  else
    return { v with i := v.i + 1, lps := ← v.lps.write v.i 0 }

/-- `ComputeLpsArray`. -/
def computeLpsArray (rounds : Nat) (pattern : Buffer α) (patternSize : Nat) (lps : Buffer Nat) :
    Except BufferFault (Option (Buffer Nat)) := do
  let lps ← lps.write 0 0
  whileLoop (fun v => v.i < patternSize) (fun v => (lpsRound pattern v).map Sum.inl)
    (fun v => v.lps) rounds ⟨0, 1, lps⟩

/-- The constructor. -/
def construct (rounds : Nat) (pool : Pool) (text : Buffer α) (textSize : Nat) (pattern : Buffer α)
    (patternSize : Nat) : Except BufferFault (Option (KmpMatcher α)) := do
  let lps ← pool.allocate patternSize
  let lps ← computeLpsArray rounds pattern patternSize lps
  return lps.map fun lps => ⟨text, textSize, pattern, patternSize, lps⟩

/-- The end of a round of `KmpSearch`, after the test for the whole pattern: another index for the
pattern is tried, unless the text is at its end or goes on with the pattern. -/
def searchNext (m : KmpMatcher α) (v : SearchVars) : Except BufferFault SearchVars := do
  if v.i < m.textSize then
    if (← m.pattern.read v.j) ≠ (← m.text.read v.i) then
      if v.j ≠ 0 then
        return { v with j := ← m.lps.read (v.j - 1) }
      else
        return { v with i := v.i + 1 }
    else
      return v
  else
    return v

/-- A round of `KmpSearch`. -/
def searchRound (m : KmpMatcher α) (v : SearchVars) : Except BufferFault (SearchVars ⊕ Nat) := do
  let v := if (← m.pattern.read v.j) = (← m.text.read v.i) then ⟨v.i + 1, v.j + 1⟩ else v
  if v.j = m.patternSize then
    return .inr (v.i - v.j)
  else
    return .inl (← m.searchNext v)

/-- `KmpSearch`. -/
def kmpSearch (rounds : Nat) (m : KmpMatcher α) : Except BufferFault (Option Nat) :=
  whileLoop (fun v => v.i < m.textSize) m.searchRound (fun _ => notFound) rounds ⟨0, 0⟩

end KmpMatcher

end KernelEventsTrace.Driver.Std
