import KernelEventsTrace.EtwService.Printable
import Mathlib.Tactic.ByContra

/-!
# `KernelEventsTrace.Proofs.Text.Evidence`: buffers that are accepted as text

A check accepts a buffer if it has decoded some characters and more than 97 percent of them are
printable (`Counts.Text`). `CheckPrintableUTF16` also accepts a buffer in which there is no
character at all, and a single byte is such a buffer.

`evidenceBased_iff`: this is the only case in which a buffer is accepted without evidence.
-/

set_option autoImplicit false

namespace KernelEventsTrace.EtwService.Manager

open Ulti

/-- The characters of a decoding, and how many of them are printable or spaces. -/
structure Counts where
  total : Nat
  printable : Nat
  deriving Repr, DecidableEq

/-- There are characters, and most of them are printable. -/
def Counts.Text (c : Counts) : Prop := 0 < c.total ∧ c.printable > c.total * 97 / 100

section
variable (types : CharTypes) (buffer : List UInt8)

/-- As UTF-8. -/
def utf8Counts : Counts :=
  ⟨(utf8Scan types buffer).totalChars, (utf8Scan types buffer).printableChars⟩

/-- As UTF-16, of which a last single byte is no part. -/
def utf16Counts : Counts := ⟨(utf16Units buffer).length, (utf16Units buffer).countP types.wide⟩

/-- As single bytes. -/
def ansiCounts : Counts := ⟨buffer.length, buffer.countP types.byte⟩

/-- The three decodings of a buffer. -/
def decodings : List Counts :=
  [utf8Counts types buffer, utf16Counts types buffer, ansiCounts types buffer]

/-- A buffer that is accepted is text under one of the decodings, and a buffer without printable
characters is rejected. -/
structure EvidenceBased : Prop where
  accepted : isPrintableBuffer types buffer = true → ∃ c ∈ decodings types buffer, c.Text
  rejected : (∀ c ∈ decodings types buffer, c.printable = 0) →
    isPrintableBuffer types buffer = false

end

variable {types : CharTypes} {buffer : List UInt8}

/-- The threshold is 97 percent, rounded down. -/
theorem not_belowTextThreshold_iff {part total : Nat} :
    (!belowTextThreshold part total) = true ↔ part > total * 97 / 100 := by
  unfold belowTextThreshold
  simp

/-- `CheckPrintableUTF8` looks at the number of characters. -/
theorem checkPrintableUTF8_iff (hne : buffer ≠ []) :
    checkPrintableUTF8 types buffer = true ↔ (utf8Counts types buffer).Text := by
  unfold checkPrintableUTF8 Counts.Text utf8Counts
  rw [if_neg fun h => hne (List.length_eq_zero_iff.mp h)]
  dsimp only
  by_cases hzero : (utf8Scan types buffer).totalChars = 0
  · rw [if_pos hzero]
    simp [hzero]
  · rw [if_neg hzero, not_belowTextThreshold_iff]
    exact (and_iff_right (Nat.pos_of_ne_zero hzero)).symm

/-- The test of single bytes. -/
theorem checkPrintableANSI_iff (hne : buffer ≠ []) :
    checkPrintableANSI types buffer = true ↔ (ansiCounts types buffer).Text := by
  have hlen : ¬ buffer.length = 0 := fun h => hne (List.length_eq_zero_iff.mp h)
  unfold checkPrintableANSI Counts.Text ansiCounts
  rw [if_neg hlen]
  dsimp only
  rw [if_neg hlen, not_belowTextThreshold_iff]
  exact (and_iff_right (Nat.pos_of_ne_zero hlen)).symm

/-- `CheckPrintableUTF16` accepts the empty string. -/
theorem checkPrintableUTF16_iff : checkPrintableUTF16 types buffer = true ↔
    utf16Units buffer = [] ∨ (utf16Counts types buffer).Text := by
  unfold checkPrintableUTF16 checkPrintableUTF16Wide Counts.Text utf16Counts
  by_cases hzero : (utf16Units buffer).length = 0
  · rw [if_pos hzero]
    simp [List.length_eq_zero_iff.mp hzero]
  · rw [if_neg hzero]
    dsimp only
    rw [if_neg hzero, not_belowTextThreshold_iff]
    constructor
    · exact fun h => .inr ⟨Nat.pos_of_ne_zero hzero, h⟩
    · rintro (h | h)
      · exact absurd (List.length_eq_zero_iff.mpr h) hzero
      · exact h.2

/-- A buffer is accepted if it has no character of 16 bits, or is text under a decoding. -/
theorem isPrintableBuffer_iff (hne : buffer ≠ []) : isPrintableBuffer types buffer = true ↔
    utf16Units buffer = [] ∨ ∃ c ∈ decodings types buffer, c.Text := by
  unfold isPrintableBuffer decodings
  rw [Bool.or_eq_true, Bool.or_eq_true, checkPrintableUTF8_iff hne, checkPrintableUTF16_iff,
    checkPrintableANSI_iff hne]
  simp only [List.mem_cons, List.not_mem_nil, or_false, exists_eq_or_imp, exists_eq_left]
  rw [or_assoc, or_assoc, or_left_comm]

/-- Only a single byte has no code unit. -/
theorem utf16Units_eq_nil_iff (hne : buffer ≠ []) :
    utf16Units buffer = [] ↔ ∃ c, buffer = [c] := by
  match buffer with
  | [] => exact absurd rfl hne
  | [c] => simp [utf16Units]
  | low :: high :: rest => simp [utf16Units]

/-- A buffer of two bytes or more is accepted if it is text under a decoding, and not otherwise. -/
theorem isPrintableBuffer_iff_of_two_le (hlen : 2 ≤ buffer.length) :
    isPrintableBuffer types buffer = true ↔ ∃ c ∈ decodings types buffer, c.Text := by
  have hne : buffer ≠ [] := by
    rintro rfl
    cases hlen
  have hunits : utf16Units buffer ≠ [] := by
    intro h
    obtain ⟨c, rfl⟩ := (utf16Units_eq_nil_iff hne).mp h
    exact absurd hlen (by simp)
  rw [isPrintableBuffer_iff hne, or_iff_right hunits]

/-- Without printable characters there is no text. -/
theorem not_text_of_printable_zero {c : Counts} (h : c.printable = 0) : ¬ c.Text := by
  intro htext
  have hlt := htext.2
  rw [h] at hlt
  exact Nat.not_lt_zero _ hlt

/-! ### A single byte -/

/-- The decodings of one byte. The first one skips a byte that cannot stand alone. -/
theorem utf8Counts_single (c : UInt8) :
    utf8Counts types [c] = if c < 0x80 then ⟨1, if types.byte c then 1 else 0⟩ else ⟨0, 0⟩ := by
  unfold utf8Counts
  have hscan : utf8Scan types [c] = utf8Step types [c] {} c := rfl
  rw [hscan]
  unfold utf8Step
  by_cases hascii : c < 0x80
  · rw [if_pos hascii, if_pos hascii]
    rfl
  · rw [if_neg hascii, if_neg hascii]
    -- The other bytes of the character would stand behind the end.
    have hend : ∀ k, [c][0 + (k + 1)]? = none := fun k => List.getElem?_eq_none (by simp)
    rw [hend 0, hend 1, hend 2]
    split
    · rfl
    · split
      · rfl
      · split <;> rfl

/-- A single byte is a character. -/
theorem ansiCounts_single (c : UInt8) :
    ansiCounts types [c] = ⟨1, if types.byte c then 1 else 0⟩ := by
  unfold ansiCounts
  rw [List.countP_singleton]
  rfl

/-- A byte is text if and only if it is printable. -/
theorem exists_text_single_iff (c : UInt8) :
    (∃ d ∈ decodings types [c], d.Text) ↔ types.byte c = true := by
  constructor
  · rintro ⟨d, hd, htext⟩
    by_contra hbyte
    refine not_text_of_printable_zero ?_ htext
    have hzero : (if types.byte c then 1 else 0) = 0 := if_neg hbyte
    simp only [decodings, List.mem_cons, List.not_mem_nil, or_false] at hd
    rcases hd with rfl | rfl | rfl
    · rw [utf8Counts_single, hzero]
      split <;> rfl
    · rfl
    · rw [ansiCounts_single, hzero]
  · intro hbyte
    refine ⟨ansiCounts types [c], by simp [decodings], ?_⟩
    rw [ansiCounts_single, if_pos hbyte]
    exact ⟨Nat.one_pos, by decide⟩

/-- Acceptance is based on evidence if and only if the buffer has at least two bytes, or one that is
printable. -/
theorem evidenceBased_iff (types : CharTypes) {buffer : List UInt8} (hne : buffer ≠ []) :
    EvidenceBased types buffer ↔
      2 ≤ buffer.length ∨ ∃ c, buffer = [c] ∧ types.byte c = true := by
  by_cases hsingle : ∃ c, buffer = [c]
  · obtain ⟨c, rfl⟩ := hsingle
    have haccepted : isPrintableBuffer types [c] = true :=
      (isPrintableBuffer_iff hne).mpr (.inl rfl)
    constructor
    · intro h
      exact .inr ⟨c, rfl, (exists_text_single_iff c).mp (h.accepted haccepted)⟩
    · rintro (hlen | ⟨d, hd, hbyte⟩)
      · exact absurd hlen (by simp)
      · obtain rfl : c = d := by simpa using hd
        have htext := (exists_text_single_iff c).mpr hbyte
        refine ⟨fun _ => htext, fun hzero => ?_⟩
        obtain ⟨d, hd, htext⟩ := htext
        exact absurd htext (not_text_of_printable_zero (hzero d hd))
  · have hlen : 2 ≤ buffer.length := by
      match buffer with
      | [] => exact absurd rfl hne
      | [c] => exact absurd ⟨c, rfl⟩ hsingle
      | low :: high :: rest => simp
    -- There is a character of 16 bits, so the string for UTF-16 is not empty.
    have haccepted : isPrintableBuffer types buffer = true ↔
        ∃ c ∈ decodings types buffer, c.Text := isPrintableBuffer_iff_of_two_le hlen
    refine iff_of_true ⟨haccepted.mp, fun hzero => ?_⟩ (.inl hlen)
    rw [← Bool.not_eq_true, haccepted]
    rintro ⟨c, hc, htext⟩
    exact not_text_of_printable_zero (hzero c hc) htext

/-- The word `ok`. -/
theorem evidenceBased_word : EvidenceBased .asciiOnly [111, 107] :=
  (evidenceBased_iff .asciiOnly (List.cons_ne_nil _ _)).mpr (.inl (Nat.le_refl 2))

/-- A single zero byte is accepted, although it is printable under no decoding. -/
theorem not_evidenceBased_zero :
    isPrintableBuffer .asciiOnly [0] = true ∧
      (∀ c ∈ decodings .asciiOnly [0], c.printable = 0) ∧ ¬ EvidenceBased .asciiOnly [0] := by
  have haccepted : isPrintableBuffer .asciiOnly [0] = true := by decide
  have hzero : ∀ c ∈ decodings .asciiOnly [0], c.printable = 0 := by decide
  refine ⟨haccepted, hzero, fun h => ?_⟩
  have hrejected := h.rejected hzero
  rw [haccepted] at hrejected
  cases hrejected

end KernelEventsTrace.EtwService.Manager
