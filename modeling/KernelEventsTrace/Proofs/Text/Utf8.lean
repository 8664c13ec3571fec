import KernelEventsTrace.EtwService.Printable
import KernelEventsTrace.Lib.Utf8

/-!
# `KernelEventsTrace.Proofs.Text.Utf8`: text that is encoded in UTF-8

On the encoding of a list of characters, the loop of `CheckPrintableUTF8` takes the characters one
by one, whatever their lengths are (`utf8Loop_encode`). It tests each by its scalar value in a
`wchar_t`, which has 16 bits. So a character of four bytes is tested as another one.

`classifiesUtf8_iff`: the characters that are tested are those of the text if and only if all of
them are below U+10000.
-/

set_option autoImplicit false

namespace KernelEventsTrace.EtwService.Ulti

open Utf8

/-! ### Specification -/

/-- The encoding of a text. -/
def encode (text : List Char) : List UInt8 := text.flatMap String.utf8EncodeChar

/-- The predicate is that of the C library, for ASCII and for the characters of 16 bits. -/
structure Agrees (types : CharTypes) (P : Char → Bool) : Prop where
  ascii : ∀ c : Char, c.toNat < 128 → P c = types.byte (UInt8.ofNat c.toNat)
  wide : ∀ c : Char, 128 ≤ c.toNat → c.toNat < 0x10000 → P c = types.wide (UInt16.ofNat c.toNat)

/-- The text is decoded, counted and classified rightly. -/
structure ClassifiesUtf8 (types : CharTypes) (P : Char → Bool) (text : List Char) : Prop where
  decoded : (utf8Scan types (encode text)).chars.map UInt16.toNat = text.map Char.toNat
  total : (utf8Scan types (encode text)).totalChars = text.length
  printable : (utf8Scan types (encode text)).printableChars = text.countP P
  accepts_iff : checkPrintableUTF8 types (encode text) = true ↔
    text.countP P > text.length * 97 / 100

/-! ### One character -/

variable {types : CharTypes}

/-- The character that is tested. -/
def tested (c : Char) : UInt16 := UInt16.ofNat c.toNat

/-- The test for a character. -/
def testPrintable (types : CharTypes) (c : Char) : Bool :=
  if c.toNat < 128 then types.byte (UInt8.ofNat c.toNat) else types.wide (tested c)

/-- A code point becomes a code unit by its last 16 bits. -/
theorem toUInt16_eq_ofNat {n : UInt32} {v : Nat} (h : n.toNat = v) :
    n.toUInt16 = UInt16.ofNat v := by
  rw [← h]
  apply UInt16.toNat_inj.mp
  simp

/-- The bits below a mask. -/
theorem bits_toNat {c mask : UInt8} {x : Nat} (h : (c &&& mask).toNat = x) :
    (bits c mask).toNat = x := by
  unfold bits
  rw [UInt8.toNat_toUInt32, h]

section
variable (types) {buffer : List UInt8} {s : Utf8Scan} {x y z w : Nat}

/-- A character of one byte. -/
theorem utf8Step_one (hx : x < 128) : utf8Step types buffer s (UInt8.ofNat x) =
    s.count (UInt16.ofNat x) (types.byte (UInt8.ofNat x)) 1 := by
  obtain ⟨hsmall, hvalue⟩ := single x hx
  have hwide : (UInt8.ofNat x).toUInt16 = UInt16.ofNat x := by
    apply UInt16.toNat_inj.mp
    rw [UInt8.toNat_toUInt16, hvalue, UInt16.toNat_ofNat_of_lt' (by show x < 2 ^ 16; omega)]
  unfold utf8Step
  rw [if_pos hsmall, hwide]

/-- A character of two bytes. -/
theorem utf8Step_two (hx : x < 32) (hy : y < 64)
    (h1 : buffer[s.i + 1]? = some (UInt8.ofNat (y + 0x80))) :
    utf8Step types buffer s (UInt8.ofNat (x + 0xC0)) =
      s.count (UInt16.ofNat (x * 64 + y)) (types.wide (UInt16.ofNat (x * 64 + y))) 2 := by
  obtain ⟨hlarge, hmark, hlead⟩ := lead2 x hx
  have hlead := bits_toNat hlead
  have htail := bits_toNat (tail y hy)
  have hwchar : wchar2 (UInt8.ofNat (x + 0xC0)) (UInt8.ofNat (y + 0x80)) =
      UInt16.ofNat (x * 64 + y) := by
    refine toUInt16_eq_ofNat ?_
    rw [shiftLeft6_or (by omega) (by omega), hlead, htail]
  unfold utf8Step
  rw [if_neg hlarge, if_pos hmark, h1]
  dsimp only
  rw [hwchar]

/-- A character of three bytes. -/
theorem utf8Step_three (hx : x < 16) (hy : y < 64) (hz : z < 64)
    (h1 : buffer[s.i + 1]? = some (UInt8.ofNat (y + 0x80)))
    (h2 : buffer[s.i + 2]? = some (UInt8.ofNat (z + 0x80))) :
    utf8Step types buffer s (UInt8.ofNat (x + 0xE0)) =
      s.count (UInt16.ofNat (x * 4096 + y * 64 + z))
        (types.wide (UInt16.ofNat (x * 4096 + y * 64 + z))) 3 := by
  obtain ⟨hlarge, hno2, hmark, hlead⟩ := lead3 x hx
  have hlead := bits_toNat hlead
  have hy' := bits_toNat (tail y hy)
  have hz' := bits_toNat (tail z hz)
  have hwchar : wchar3 (UInt8.ofNat (x + 0xE0)) (UInt8.ofNat (y + 0x80))
      (UInt8.ofNat (z + 0x80)) = UInt16.ofNat (x * 4096 + y * 64 + z) := by
    refine toUInt16_eq_ofNat ?_
    rw [value3 (by omega) (by omega) (by omega), hlead, hy', hz']
  unfold utf8Step
  rw [if_neg hlarge, if_neg hno2, if_pos hmark, h1, h2]
  dsimp only
  rw [hwchar]

/-- A character of four bytes. -/
theorem utf8Step_four (hx : x < 8) (hy : y < 64) (hz : z < 64) (hw : w < 64)
    (h1 : buffer[s.i + 1]? = some (UInt8.ofNat (y + 0x80)))
    (h2 : buffer[s.i + 2]? = some (UInt8.ofNat (z + 0x80)))
    (h3 : buffer[s.i + 3]? = some (UInt8.ofNat (w + 0x80))) :
    utf8Step types buffer s (UInt8.ofNat (x + 0xF0)) =
      s.count (UInt16.ofNat (x * 262144 + y * 4096 + z * 64 + w))
        (types.wide (UInt16.ofNat (x * 262144 + y * 4096 + z * 64 + w))) 4 := by
  obtain ⟨hlarge, hno2, hno3, hmark, hlead⟩ := lead4 x hx
  have hlead := bits_toNat hlead
  have hy' := bits_toNat (tail y hy)
  have hz' := bits_toNat (tail z hz)
  have hw' := bits_toNat (tail w hw)
  have hwchar : wchar4 (UInt8.ofNat (x + 0xF0)) (UInt8.ofNat (y + 0x80))
      (UInt8.ofNat (z + 0x80)) (UInt8.ofNat (w + 0x80)) =
        UInt16.ofNat (x * 262144 + y * 4096 + z * 64 + w) := by
    refine toUInt16_eq_ofNat ?_
    rw [value4 (by omega) (by omega) (by omega) (by omega), hlead, hy', hz', hw']
  unfold utf8Step
  rw [if_neg hlarge, if_neg hno2, if_neg hno3, if_pos hmark, h1, h2, h3]
  dsimp only
  rw [hwchar]

end

variable {buffer post : List UInt8} {s : Utf8Scan} {c : Char}

/-- What follows the position of the scan. -/
theorem getElem?_of_drop {bytes : List UInt8} (h : buffer.drop s.i = bytes) (k : Nat) :
    buffer[s.i + k]? = bytes[k]? := by
  rw [← h, List.getElem?_drop]

/-- The greatest character is U+10FFFF. -/
theorem toNat_lt_max (c : Char) : c.toNat < 0x110000 := by
  rcases c.valid with h | h
  · exact Nat.lt_trans h (by decide)
  · exact h.2

/-- A round of the loop takes the first character of what follows. -/
theorem utf8Step_encode (h : buffer.drop s.i = String.utf8EncodeChar c ++ post) :
    ∃ b, buffer[s.i]? = some b ∧ utf8Step types buffer s b =
      s.count (tested c) (testPrintable types c) (String.utf8EncodeChar c).length := by
  have hget := getElem?_of_drop h
  have hmax := toNat_lt_max c
  unfold testPrintable tested
  -- One case for each length of the encoding.
  by_cases h1 : c.toNat ≤ 0x7F
  · have hbytes : String.utf8EncodeChar c = [UInt8.ofNat c.toNat] := if_pos h1
    rw [hbytes] at hget ⊢
    rw [if_pos (by omega)]
    exact ⟨_, hget 0, utf8Step_one types (by omega)⟩
  rw [if_neg (by omega)]
  by_cases h2 : c.toNat ≤ 0x7FF
  · have hbytes : String.utf8EncodeChar c = [UInt8.ofNat (c.toNat / 64 % 32 + 0xC0),
        UInt8.ofNat (c.toNat % 64 + 0x80)] := (if_neg h1).trans (if_pos h2)
    have hvalue : c.toNat / 64 % 32 * 64 + c.toNat % 64 = c.toNat := by omega
    rw [hbytes] at hget ⊢
    have hstep := utf8Step_two types (by omega : c.toNat / 64 % 32 < 32)
      (by omega : c.toNat % 64 < 64) (hget 1)
    rw [hvalue] at hstep
    exact ⟨_, hget 0, hstep⟩
  by_cases h3 : c.toNat ≤ 0xFFFF
  · have hbytes : String.utf8EncodeChar c = [UInt8.ofNat (c.toNat / 4096 % 16 + 0xE0),
        UInt8.ofNat (c.toNat / 64 % 64 + 0x80), UInt8.ofNat (c.toNat % 64 + 0x80)] :=
      (if_neg h1).trans ((if_neg h2).trans (if_pos h3))
    have hvalue : c.toNat / 4096 % 16 * 4096 + c.toNat / 64 % 64 * 64 + c.toNat % 64 =
        c.toNat := by omega
    rw [hbytes] at hget ⊢
    have hstep := utf8Step_three types (by omega : c.toNat / 4096 % 16 < 16)
      (by omega : c.toNat / 64 % 64 < 64) (by omega : c.toNat % 64 < 64) (hget 1) (hget 2)
    rw [hvalue] at hstep
    exact ⟨_, hget 0, hstep⟩
  · have hbytes : String.utf8EncodeChar c = [UInt8.ofNat (c.toNat / 262144 % 8 + 0xF0),
        UInt8.ofNat (c.toNat / 4096 % 64 + 0x80), UInt8.ofNat (c.toNat / 64 % 64 + 0x80),
        UInt8.ofNat (c.toNat % 64 + 0x80)] :=
      (if_neg h1).trans ((if_neg h2).trans (if_neg h3))
    have hvalue : c.toNat / 262144 % 8 * 262144 + c.toNat / 4096 % 64 * 4096 +
        c.toNat / 64 % 64 * 64 + c.toNat % 64 = c.toNat := by omega
    rw [hbytes] at hget ⊢
    have hstep := utf8Step_four types (by omega : c.toNat / 262144 % 8 < 8)
      (by omega : c.toNat / 4096 % 64 < 64) (by omega : c.toNat / 64 % 64 < 64)
      (by omega : c.toNat % 64 < 64) (hget 1) (hget 2) (hget 3)
    rw [hvalue] at hstep
    exact ⟨_, hget 0, hstep⟩

/-! ### The text -/

/-- The loop goes through the characters. The induction is on those that are left. -/
theorem utf8Loop_encode (text : List Char) (fuel : Nat) (hfuel : (encode text).length ≤ fuel)
    (h : buffer.drop s.i = encode text) :
    utf8Loop types buffer fuel s =
      { i := s.i + (encode text).length
        printableChars := s.printableChars + text.countP (testPrintable types)
        totalChars := s.totalChars + text.length
        chars := s.chars ++ text.map tested } := by
  induction text generalizing fuel s with
  | nil =>
    have hend : buffer[s.i]? = none := getElem?_of_drop h 0
    have hstop : utf8Loop types buffer fuel s = s := by
      cases fuel with
      | zero => rfl
      | succ fuel =>
        unfold utf8Loop
        rw [hend]
    rw [hstop]
    simp [encode]
  | cons c text ih =>
    have hcons : encode (c :: text) = String.utf8EncodeChar c ++ encode text := rfl
    rw [hcons] at h hfuel ⊢
    rw [List.length_append] at hfuel
    have hpos : 0 < (String.utf8EncodeChar c).length :=
      List.length_pos_iff.mpr String.utf8EncodeChar_ne_nil
    obtain ⟨b, hb, hstep⟩ := utf8Step_encode h
    cases fuel with
    | zero => omega
    | succ fuel =>
      have hnext : buffer.drop (s.i + (String.utf8EncodeChar c).length) = encode text := by
        rw [← List.drop_drop, h, List.drop_left]
      unfold utf8Loop
      rw [hb]
      show utf8Loop types buffer fuel (utf8Step types buffer s b) = _
      rw [hstep, ih (s := s.count _ _ _) fuel (by omega) hnext]
      unfold Utf8Scan.count
      rw [List.length_append, List.countP_cons, List.map_cons, List.append_assoc]
      cases testPrintable types c <;> simp <;> omega

/-- The scan over an encoded text counts its characters. -/
theorem utf8Scan_encode (types : CharTypes) (text : List Char) :
    utf8Scan types (encode text) =
      { i := (encode text).length
        printableChars := text.countP (testPrintable types)
        totalChars := text.length
        chars := text.map tested } := by
  have hloop : utf8Loop types (encode text) (encode text).length {} = _ :=
    utf8Loop_encode text _ (Nat.le_refl _) rfl
  unfold utf8Scan
  rw [hloop]
  simp

/-- The answer is about the characters that are tested. -/
theorem checkPrintableUTF8_encode {text : List Char} (hne : text ≠ []) :
    checkPrintableUTF8 types (encode text) = true ↔
      text.countP (testPrintable types) > text.length * 97 / 100 := by
  have hbytes : (encode text).length ≠ 0 := by
    cases text with
    | nil => exact absurd rfl hne
    | cons c text =>
      have hpos := List.length_pos_iff.mpr (String.utf8EncodeChar_ne_nil (c := c))
      show (String.utf8EncodeChar c ++ encode text).length ≠ 0
      rw [List.length_append]
      omega
  unfold checkPrintableUTF8
  rw [if_neg hbytes, utf8Scan_encode]
  dsimp only
  rw [if_neg fun h => hne (List.length_eq_zero_iff.mp h)]
  unfold belowTextThreshold
  simp

/-- A character of one code unit is tested as itself. -/
theorem tested_toNat {c : Char} (h : c.toNat < 0x10000) : (tested c).toNat = c.toNat :=
  UInt16.toNat_ofNat_of_lt' h

/-- A character of 16 bits is tested as what it is. -/
theorem Agrees.testPrintable_eq {P : Char → Bool} (h : Agrees types P) {c : Char}
    (hc : c.toNat < 0x10000) : testPrintable types c = P c := by
  unfold testPrintable tested
  by_cases hascii : c.toNat < 128
  · rw [if_pos hascii, h.ascii c hascii]
  · rw [if_neg hascii, h.wide c (Nat.le_of_not_lt hascii) hc]

/-- A text is classified rightly if and only if all of its characters have 16 bits. -/
theorem classifiesUtf8_iff {P : Char → Bool} (h : Agrees types P) {text : List Char}
    (hne : text ≠ []) : ClassifiesUtf8 types P text ↔ ∀ c ∈ text, c.toNat < 0x10000 := by
  constructor
  · intro hclass c hc
    have hdecoded := hclass.decoded
    rw [utf8Scan_encode, List.map_map, List.map_inj_left] at hdecoded
    have hvalue : (tested c).toNat = c.toNat := hdecoded c hc
    rw [← hvalue]
    exact (tested c).toNat_lt
  · intro hall
    have hcount : text.countP (testPrintable types) = text.countP P :=
      List.countP_congr fun c hc => by rw [h.testPrintable_eq (hall c hc)]
    constructor
    · rw [utf8Scan_encode, List.map_map, List.map_inj_left]
      exact fun c hc => tested_toNat (hall c hc)
    · rw [utf8Scan_encode]
    · rw [utf8Scan_encode]
      exact hcount
    · rw [checkPrintableUTF8_encode hne, hcount]

/-- `é`, and a full stop. -/
theorem classifiesUtf8_latin :
    ClassifiesUtf8 .asciiOnly (testPrintable .asciiOnly) [Char.ofNat 0xE9, '.'] := by
  have hagrees : Agrees .asciiOnly (testPrintable .asciiOnly) :=
    ⟨fun _ hc => if_pos hc, fun _ hc _ => if_neg (Nat.not_lt.mpr hc)⟩
  have hsmall : ∀ c ∈ [Char.ofNat 0xE9, '.'], c.toNat < 0x10000 := by
    rw [List.forall_mem_cons, List.forall_mem_singleton]
    decide
  exact (classifiesUtf8_iff hagrees (List.cons_ne_nil _ _)).mpr hsmall

/-- The characters of four bytes are printable, and no others but those of ASCII. -/
def printableAstral (c : Char) : Bool := testPrintable .asciiOnly c || 0x10000 ≤ c.toNat

/-- Up to U+FFFF the characters are printable as the code tests them. -/
theorem agrees_printableAstral : Agrees .asciiOnly printableAstral where
  ascii c hc := by
    have hsmall : ¬ 0x10000 ≤ c.toNat := by omega
    unfold printableAstral testPrintable
    rw [if_pos hc, decide_eq_false hsmall, Bool.or_false]
  wide c hc hsmall := by
    unfold printableAstral testPrintable
    rw [if_neg (Nat.not_lt.mpr hc), decide_eq_false (Nat.not_le.mpr hsmall), Bool.or_false]
    rfl

/-- U+1F600 is tested as U+F600. -/
theorem not_classifiesUtf8_astral :
    (utf8Scan .asciiOnly (encode [Char.ofNat 0x1F600])).chars = [0xF600] ∧
      checkPrintableUTF8 .asciiOnly (encode [Char.ofNat 0x1F600]) = false ∧
      Agrees .asciiOnly printableAstral ∧
      ¬ ClassifiesUtf8 .asciiOnly printableAstral [Char.ofNat 0x1F600] := by
  have hchars : (utf8Scan .asciiOnly (encode [Char.ofNat 0x1F600])).chars = [0xF600] := by decide
  refine ⟨hchars, by decide, agrees_printableAstral, fun h => ?_⟩
  have hdecoded := h.decoded
  rw [hchars] at hdecoded
  exact absurd hdecoded (by decide)

end KernelEventsTrace.EtwService.Ulti
