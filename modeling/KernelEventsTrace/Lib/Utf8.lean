import Mathlib.Algebra.Group.Nat.Defs

/-!
# `KernelEventsTrace.Lib.Utf8`: the bits of UTF-8

The first byte of a character of two, three or four bytes has a mark in its high bits, and so has
every byte after it. The low bits are those of the character. `toNat_shiftLeft_or` puts them
together again, 6 bits at a time.
-/

set_option autoImplicit false

namespace KernelEventsTrace.Utf8

/-! ### First bytes -/

/-- The first byte of two. -/
theorem lead2 : ∀ x < 32, ¬ UInt8.ofNat (x + 0xC0) < 0x80 ∧
    UInt8.ofNat (x + 0xC0) &&& 0xE0 = 0xC0 ∧ (UInt8.ofNat (x + 0xC0) &&& 0x1F).toNat = x := by
  decide

/-- The first byte of three. -/
theorem lead3 : ∀ x < 16, ¬ UInt8.ofNat (x + 0xE0) < 0x80 ∧
    ¬ UInt8.ofNat (x + 0xE0) &&& 0xE0 = 0xC0 ∧ UInt8.ofNat (x + 0xE0) &&& 0xF0 = 0xE0 ∧
    (UInt8.ofNat (x + 0xE0) &&& 0x0F).toNat = x := by
  decide

/-- The first byte of four. -/
theorem lead4 : ∀ x < 8, ¬ UInt8.ofNat (x + 0xF0) < 0x80 ∧
    ¬ UInt8.ofNat (x + 0xF0) &&& 0xE0 = 0xC0 ∧ ¬ UInt8.ofNat (x + 0xF0) &&& 0xF0 = 0xE0 ∧
    UInt8.ofNat (x + 0xF0) &&& 0xF8 = 0xF0 ∧ (UInt8.ofNat (x + 0xF0) &&& 0x07).toNat = x := by
  decide

/-- A byte behind the first one. -/
theorem tail : ∀ x < 64, (UInt8.ofNat (x + 0x80) &&& 0x3F).toNat = x := by
  decide

/-- The only byte of a character. -/
theorem single : ∀ x < 128, UInt8.ofNat x < 0x80 ∧ (UInt8.ofNat x).toNat = x := by
  decide

/-! ### Values -/

/-- Bits are put behind the other ones. -/
theorem toNat_shiftLeft_or {a b n : UInt32} {k : Nat} (hn : n.toNat < 32) (hk : 2 ^ n.toNat = k)
    (hb : b.toNat < k) (ha : a.toNat * k < 2 ^ 32) :
    (a <<< n ||| b).toNat = a.toNat * k + b.toNat := by
  subst hk
  rw [UInt32.toNat_or, UInt32.toNat_shiftLeft, Nat.mod_eq_of_lt hn, Nat.shiftLeft_eq,
    Nat.mod_eq_of_lt ha, ← Nat.shiftLeft_eq, Nat.shiftLeft_add_eq_or_of_lt hb]

/-- Six bits are put behind a number. -/
theorem shiftLeft6_or {a b : UInt32} (hb : b.toNat < 64) (ha : a.toNat < 64) :
    (a <<< 6 ||| b).toNat = a.toNat * 64 + b.toNat :=
  toNat_shiftLeft_or (by decide) rfl hb (by omega)

/-- Twelve bits are put behind a number. -/
theorem shiftLeft12_or {a b : UInt32} (hb : b.toNat < 4096) (ha : a.toNat < 64) :
    (a <<< 12 ||| b).toNat = a.toNat * 4096 + b.toNat :=
  toNat_shiftLeft_or (by decide) rfl hb (by omega)

/-- Eighteen bits are put behind a number. -/
theorem shiftLeft18_or {a b : UInt32} (hb : b.toNat < 262144) (ha : a.toNat < 64) :
    (a <<< 18 ||| b).toNat = a.toNat * 262144 + b.toNat :=
  toNat_shiftLeft_or (by decide) rfl hb (by omega)

/-- The value of three bytes. -/
theorem value3 {a b c : UInt32} (ha : a.toNat < 64) (hb : b.toNat < 64) (hc : c.toNat < 64) :
    (a <<< 12 ||| b <<< 6 ||| c).toNat = a.toNat * 4096 + b.toNat * 64 + c.toNat := by
  have hlow : (b <<< 6 ||| c).toNat = b.toNat * 64 + c.toNat := shiftLeft6_or hc hb
  rw [UInt32.or_assoc, shiftLeft12_or (by omega) ha, hlow]
  omega

/-- The value of four bytes. -/
theorem value4 {a b c d : UInt32} (ha : a.toNat < 64) (hb : b.toNat < 64) (hc : c.toNat < 64)
    (hd : d.toNat < 64) : (a <<< 18 ||| b <<< 12 ||| c <<< 6 ||| d).toNat =
      a.toNat * 262144 + b.toNat * 4096 + c.toNat * 64 + d.toNat := by
  have hlow : (b <<< 12 ||| c <<< 6 ||| d).toNat = b.toNat * 4096 + c.toNat * 64 + d.toNat :=
    value3 hb hc hd
  rw [UInt32.or_assoc, UInt32.or_assoc, ← UInt32.or_assoc (b <<< 12),
    shiftLeft18_or (by omega) ha, hlow]
  omega

end KernelEventsTrace.Utf8
