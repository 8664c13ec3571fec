import KernelEventsTrace.Proofs.String.Find

/-!
# `KernelEventsTrace.Proofs.String.FailureTable`: what `ComputeLpsArray` writes

The search needs the table as the failure function of the pattern (`TableUpTo`). Here it is read
without that function: the entry at `i` is the length of the longest proper prefix of
`pattern[0..i]` that is a suffix of it too. What the array held before does not matter, and neither
does what the pattern's buffer holds behind `patternSize`.
-/

set_option autoImplicit false

namespace KernelEventsTrace.Driver.Std.KmpMatcher

open KernelEventsTrace (Buffer LongestBorder)

variable {α : Type}

/-- The entries of the table as lengths of prefixes. -/
theorem TableUpTo.longestBorder {p : List α} {lps : Buffer Nat} {n : Nat} (h : TableUpTo p lps n)
    (hn : n ≤ p.length) {i : Nat} (hi : i < n) :
    ∃ b, lps.cells[i]? = some b ∧ LongestBorder (p.take (i + 1)) b ∧ b ≤ i := by
  obtain ⟨b, hget, hfailure⟩ := h i hi
  have hlt := hfailure.lt
  exact ⟨b, hget, hfailure.longestBorder (by omega), by omega⟩

variable [DecidableEq α]

/-- `ComputeLpsArray` needs at most two rounds for each element of the pattern, and every entry of
the table is the length of the longest border of the pattern up to there. -/
theorem computeLpsArray_table {pattern : Buffer α} {patternSize : Nat} (hpos : 0 < patternSize)
    (hpattern : patternSize ≤ pattern.cells.length) {lps : Buffer Nat}
    (hlps : lps.cells.length = patternSize) :
    ∃ lps', computeLpsArray (2 * patternSize) pattern patternSize lps = .ok (some lps') ∧
      ∀ i, i < patternSize → ∃ b, lps'.cells[i]? = some b ∧
        LongestBorder (pattern.cells.take (i + 1)) b ∧ b ≤ i := by
  have hlen : (pattern.cells.take patternSize).length = patternSize :=
    List.length_take_of_le hpattern
  have hne : pattern.cells.take patternSize ≠ [] := List.length_pos_iff.mp (by omega)
  obtain ⟨lps', hrun, htable⟩ := computeLpsArray_spec hne
    (List.take_prefix patternSize pattern.cells) (by rw [hlps, hlen]) (Nat.le_refl _)
  rw [hlen] at hrun htable
  refine ⟨lps', hrun, fun i hi => ?_⟩
  obtain ⟨b, hget, hborder, hle⟩ := htable.longestBorder (Nat.le_of_eq hlen.symm) hi
  -- The prefixes of the pattern are prefixes of its buffer.
  rw [List.take_take, Nat.min_eq_left hi] at hborder
  exact ⟨b, hget, hborder, hle⟩

/-- The pattern `aabaaab`, in a buffer with more behind it. Its sixth element does not continue the
border `aa`, but continues the border `a` of that. -/
theorem computeLpsArray_table_overlapping :
    ∃ lps', computeLpsArray 14 (.array [97, 97, 98, 97, 97, 97, 98, 0]) 7
        (.array [9, 9, 9, 9, 9, 9, 9]) = .ok (some lps') ∧
      ∀ i, i < 7 → ∃ b, lps'.cells[i]? = some b ∧
        LongestBorder ([97, 97, 98, 97, 97, 97, 98, 0].take (i + 1)) b ∧ b ≤ i :=
  computeLpsArray_table (by decide) (by decide) rfl

example : computeLpsArray 14 (.array [97, 97, 98, 97, 97, 97, 98, 0]) 7
    (.array [9, 9, 9, 9, 9, 9, 9]) = .ok (some (.array [0, 1, 0, 1, 2, 2, 3])) := rfl

end KernelEventsTrace.Driver.Std.KmpMatcher
