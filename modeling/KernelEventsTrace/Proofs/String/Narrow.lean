import KernelEventsTrace.Proofs.String.Terminated

/-!
# `KernelEventsTrace.Proofs.String.Narrow`: from `UNICODE_STRING` to `String<char>`

The constructor allocates one `char` for each code unit, and its loop copies one for each byte.

`narrows_iff`: it does what it should for the empty string, or never gets its memory.
-/

set_option autoImplicit false

namespace KernelEventsTrace.Driver.Std

open KernelEventsTrace (Yields)

namespace StringObj

/-- The constructor reads the code units of the string and no others, and makes as many characters,
with a terminator behind them. -/
def Narrows (pool : Pool) (str : UnicodeOperand) : Prop :=
  ∃ x, constructUnicode .char pool str.toUnicodeString = some x ∧ Yields x fun s =>
    s.size = str.length / 2 ∧
      s.elements.cells = str.chars.map (fun c => c.toUInt8) ++ [0]

/-- The text is empty, or there is no memory for it. -/
theorem narrows_iff (pool : Pool) (str : UnicodeOperand) :
    Narrows pool str ↔ str.chars = [] ∨ pool.limit < str.chars.length + 1 := by
  have hfits := str.fits
  have hmax := str.maximumLength_lt
  rcases Nat.lt_or_ge pool.limit (str.chars.length + 1) with hlim | hlim
  · -- `Allocate` never returns.
    exact iff_of_true ⟨_, constructChar_noMemory hlim (by omega), trivial⟩ (.inr hlim)
  · by_cases hnil : str.chars = []
    · refine iff_of_true ⟨_, constructChar_nil hnil (by omega), ?_⟩ (.inl hnil)
      show 0 = 2 * str.chars.length / 2 ∧ [0] = str.chars.map _ ++ [0]
      rw [hnil]
      exact ⟨rfl, rfl⟩
    · -- The first round behind the code units leaves the buffer.
      refine iff_of_false (fun h => ?_) (fun hc => ?_)
      · obtain ⟨x, hx, hyields⟩ := h
        rw [constructChar_fault hnil hlim] at hx
        cases hx
        exact hyields
      · rcases hc with hc | hc
        · exact hnil hc
        · omega

/-- The string `a`, in a buffer of two bytes. The loop reads a second code unit. -/
theorem not_narrows_one :
    constructUnicode .char ⟨64, by decide⟩ ⟨[97], 2⟩ = some (.error .outOfBounds) ∧
      ¬ Narrows ⟨64, by decide⟩ ⟨⟨[97], 2⟩, by decide, by decide⟩ := by
  have hfault : constructUnicode .char ⟨64, by decide⟩ ⟨[97], 2⟩ = some (.error .outOfBounds) := rfl
  refine ⟨hfault, fun h => ?_⟩
  obtain ⟨x, hx, hyields⟩ := h
  obtain rfl : Except.error .outOfBounds = x := Option.some.inj (hfault.symm.trans hx)
  exact hyields

end StringObj

end KernelEventsTrace.Driver.Std
