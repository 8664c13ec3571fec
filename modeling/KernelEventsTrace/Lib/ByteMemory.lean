import Mathlib.Algebra.Group.Nat.Defs

/-!
# `KernelEventsTrace.Lib.ByteMemory`: numbers in a memory of bytes

A memory has a byte at each 64-bit address. `write p w n` stores the low `w` bytes of `n` from `p`
on, the lowest one first, and `read p w` is the number that `w` bytes stand for. Addresses wrap
around, so a number may begin at the last address.

`InRange p w a` says that `a` is one of the `w` addresses from `p` on.

* `read_write`: a number that fits is read back.
* `write_of_inRange`, `write_of_not_inRange`: every byte after a write.
-/

set_option autoImplicit false

namespace KernelEventsTrace

/-- The byte at position `k` of a number, from the lowest one on. -/
def byteAt (n : Nat) : Nat → UInt8
  | 0 => UInt8.ofNat n
  | k + 1 => byteAt (n / 256) k

/-- A byte at each address. -/
abbrev ByteMemory := UInt64 → UInt8

/-- `a` is one of the `w` addresses from `p` on. -/
def InRange (p : UInt64) (w : Nat) (a : UInt64) : Prop := (a - p).toNat < w

/-- The distance is compared with the width. -/
instance (p : UInt64) (w : Nat) (a : UInt64) : Decidable (InRange p w a) :=
  inferInstanceAs (Decidable (_ < _))

/-- Two ranges have no address in common. -/
def Apart (p : UInt64) (w : Nat) (q : UInt64) (v : Nat) : Prop :=
  ∀ a, InRange p w a → ¬ InRange q v a

namespace ByteMemory

/-- The number in the `w` bytes from `p` on. -/
def read (m : ByteMemory) (p : UInt64) : Nat → Nat
  | 0 => 0
  | w + 1 => (m p).toNat + 256 * read m (p + 1) w

/-- The low `w` bytes of `n`, stored from `p` on. -/
def write (m : ByteMemory) (p : UInt64) (w n : Nat) : ByteMemory :=
  fun a => if InRange p w a then byteAt n (a - p).toNat else m a

end ByteMemory

variable {m m' : ByteMemory} {p q a : UInt64} {w v n k : Nat}

/-! ### Addresses -/

/-- The distance to an address is what was added. -/
theorem add_sub_self (p d : UInt64) : p + d - p = d := by
  rw [UInt64.add_comm, UInt64.add_sub_cancel]

/-- A number below 2^64 is not wrapped. -/
theorem toNat_ofNat_of_lt (h : k < 2 ^ 64) : (UInt64.ofNat k).toNat = k := by
  rw [UInt64.toNat_ofNat', Nat.mod_eq_of_lt h]

/-- A byte of the range. -/
theorem inRange_add (h : k < w) : InRange p w (p + UInt64.ofNat k) := by
  unfold InRange
  rw [add_sub_self, UInt64.toNat_ofNat']
  exact Nat.lt_of_le_of_lt (Nat.mod_le k _) h

/-- A byte behind the range. -/
theorem not_inRange_add (hk : k < 2 ^ 64) (h : w ≤ k) : ¬ InRange p w (p + UInt64.ofNat k) := by
  unfold InRange
  rw [add_sub_self, toNat_ofNat_of_lt hk]
  exact Nat.not_lt_of_le h

/-- The addresses of a range, by their distance from its first one. -/
theorem add_distance (p a : UInt64) : p + UInt64.ofNat (a - p).toNat = a := by
  rw [UInt64.ofNat_toNat, UInt64.add_comm, UInt64.sub_add_cancel]

/-- Ranges at offsets from one base do not meet if the offsets are far enough apart. -/
theorem apart_of_offsets {base d e : UInt64} (h : d.toNat + w ≤ e.toNat)
    (hfits : e.toNat + v ≤ 2 ^ 64) : Apart (base + d) w (base + e) v := by
  intro a ha hb
  unfold InRange at ha hb
  rw [UInt64.toNat_sub, UInt64.toNat_add] at ha hb
  have hbase := base.toNat_lt
  have ha' := a.toNat_lt
  omega

/-- Ranges that are apart, in either order. -/
theorem Apart.symm (h : Apart p w q v) : Apart q v p w := fun a ha hb => h a hb ha

namespace ByteMemory

/-! ### Writes -/

/-- A byte that was written. -/
theorem write_of_inRange (h : InRange p w a) : m.write p w n a = byteAt n (a - p).toNat := if_pos h

/-- A byte that was kept. -/
theorem write_of_not_inRange (h : ¬ InRange p w a) : m.write p w n a = m a := if_neg h

/-- The bytes of a number that was written. -/
theorem write_add (hk : k < w) (h : k < 2 ^ 64) :
    m.write p w n (p + UInt64.ofNat k) = byteAt n k := by
  rw [write_of_inRange (inRange_add hk), add_sub_self, toNat_ofNat_of_lt h]

/-- A number is read from its bytes. The induction is on their number. -/
theorem read_of_bytes (h : ∀ k, k < w → m (p + UInt64.ofNat k) = byteAt n k)
    (hn : n < 256 ^ w) : m.read p w = n := by
  induction w generalizing p n with
  | zero =>
    rw [Nat.pow_zero] at hn
    show 0 = n
    omega
  | succ w ih =>
    have hfirst : (m p).toNat = n % 256 := by
      have hbyte := h 0 (Nat.succ_pos w)
      rw [show UInt64.ofNat 0 = 0 from rfl, UInt64.add_zero] at hbyte
      rw [hbyte]
      exact UInt8.toNat_ofNat'
    -- The bytes from `p + 1` on are those of the number without its lowest byte.
    have hrest : m.read (p + 1) w = n / 256 := by
      refine ih (fun k hk => ?_) ?_
      · have hbyte := h (k + 1) (Nat.succ_lt_succ hk)
        rw [UInt64.ofNat_add, UInt64.add_comm (UInt64.ofNat k), ← UInt64.add_assoc] at hbyte
        exact hbyte
      · rw [Nat.pow_succ] at hn
        omega
    show (m p).toNat + 256 * m.read (p + 1) w = n
    rw [hfirst, hrest]
    exact Nat.mod_add_div n 256

/-- A number that fits is read back. -/
theorem read_write (hw : w ≤ 2 ^ 64) (hn : n < 256 ^ w) : (m.write p w n).read p w = n :=
  read_of_bytes (fun _ hk => write_add hk (Nat.lt_of_lt_of_le hk hw)) hn

end ByteMemory

end KernelEventsTrace
