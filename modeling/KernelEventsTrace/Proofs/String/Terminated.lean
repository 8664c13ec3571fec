import KernelEventsTrace.Driver.Std.StringObj
import KernelEventsTrace.Lib.FaultRun

/-!
# `KernelEventsTrace.Proofs.String.Terminated`: the terminator of `String`

`Allocate` fills the array with zeros, and puts a terminator behind the last cell that can hold a
character. The last one is never overwritten (`Shape`). The cell right behind the characters is
another matter (`Slot`): an operation that changes the size in place does not touch it, so it is
a terminator if an earlier operation left a zero there.

`stringsTerminated_iff`: in a program with strings all of them are terminated at all times if and
only if every call that works in place finds a zero behind the new characters, and no call asks
for a length that its counter cannot hold. `PushBack` may get a character of the string itself, and
read it after its deletion. The new array has its terminator all the same.
-/

set_option autoImplicit false

namespace KernelEventsTrace.Driver.Std

open KernelEventsTrace (BufferFault Buffer forRange forRange_rule forRange_writes forRange_of_le
  Yields FineIff YieldsIff ignoreDeleted)

variable {α : Type}

namespace StringObj

/-! ### Specification -/

section
variable [Inhabited α]

/-- There is no string, or `Data()[Size()]` is a terminator. -/
def Terminated (s : StringObj α) : Prop :=
  (s.elements = .null ∧ s.size = 0) ∨ s.elements.cells[s.size]? = some default

/-- Read as a C string, `Data()` is the content, if that has no terminator of its own. -/
def ReadsBack [DecidableEq α] (s : StringObj α) : Prop :=
  s.elements ≠ .null → default ∉ s.content → cstrContent s.elements.cells = s.content

/-- Nothing, or a terminator, is behind the first `k` cells. -/
def Slot (b : Buffer α) (k : Nat) : Prop := b = .null ∨ b.cells[k]? = some default

/-- An array with room for `n` characters and a terminator behind them. -/
structure Room (pool : Pool) (n : Nat) (b : Buffer α) : Prop where
  length : b.cells.length = n + 1
  last : b.cells[n]? = some default
  limit : n + 1 ≤ pool.limit

/-- The bookkeeping is exact: `space_` is the number of characters that there is room for. -/
structure Shape (pool : Pool) (s : StringObj α) : Prop where
  size : s.size ≤ s.space
  array : (s.elements = .null ∧ s.space = 0) ∨ Room pool s.space s.elements

/-- The invariant of a terminated string. -/
structure Sound (pool : Pool) (s : StringObj α) : Prop extends Shape pool s where
  slot : Slot s.elements s.size

variable {pool : Pool} {s t : StringObj α}

/-- The space is counted without the terminator. -/
theorem Shape.space_le_cells (h : s.Shape pool) : s.space ≤ s.elements.cells.length := by
  rcases h.array with ⟨-, h0⟩ | hroom
  · omega
  · have hlen := hroom.length
    omega

/-- The characters are inside the array. -/
theorem Shape.size_le_cells (h : s.Shape pool) : s.size ≤ s.elements.cells.length :=
  Nat.le_trans h.size h.space_le_cells

/-- Sizes are small enough to be doubled. -/
theorem Shape.space_lt (h : s.Shape pool) : s.space + 1 < 2 ^ 63 := by
  have hlim := pool.limit_lt
  rcases h.array with ⟨-, h0⟩ | hroom
  · omega
  · have hspace := hroom.limit
    omega

/-- A string of the right shape is terminated if the cell behind its characters is. -/
theorem Shape.terminated_iff (h : s.Shape pool) : s.Terminated ↔ Slot s.elements s.size := by
  have hsize := h.size
  constructor
  · rintro (⟨hnull, -⟩ | hcell)
    · exact .inl hnull
    · exact .inr hcell
  · rintro (hnull | hcell)
    · rcases h.array with ⟨-, h0⟩ | hroom
      · exact .inl ⟨hnull, by omega⟩
      · have hlen := hroom.length
        simp [hnull] at hlen
    · exact .inr hcell

/-- A call that has worked in place, and not because the array was full. What counts is the cell
behind the characters. -/
theorem Shape.yieldsIff_inPlace {x : Except BufferFault (StringObj α)} {full c : Prop}
    (h : s.Shape pool) (hx : x = .ok s) (hfull : ¬ full) (hslot : Slot s.elements s.size ↔ c) :
    YieldsIff (Sound pool) Terminated (full ∨ c) x := by
  refine .of_ok hx ?_ ?_
  · rintro (hc | hc)
    · exact absurd hc hfull
    · exact ⟨h, hslot.mpr hc⟩
  · intro hterm
    exact .inr (hslot.mp (h.terminated_iff.mp hterm))

/-- The terminator is in its slot. -/
theorem Sound.terminated (h : s.Sound pool) : s.Terminated := h.toShape.terminated_iff.mpr h.slot

/-- The characters of a C string whose first terminator is at `n`. -/
theorem cstrContent_eq_take [DecidableEq α] {l : List α} {n : Nat} (hn : l[n]? = some default)
    (hno : default ∉ l.take n) : cstrContent l = l.take n := by
  obtain ⟨hlt, hget⟩ := List.getElem?_eq_some_iff.mp hn
  have hsplit : l = l.take n ++ default :: l.drop (n + 1) := by
    rw [← hget, List.getElem_cons_drop, List.take_append_drop]
  have hne : ∀ a ∈ l.take n, decide (a ≠ default) = true := by
    intro a ha
    exact decide_eq_true fun heq => hno (heq ▸ ha)
  unfold cstrContent
  conv_lhs => rw [hsplit]
  rw [List.takeWhile_append_of_pos hne, List.takeWhile_cons]
  simp

/-- A reader that stops at the first zero reads the characters, if none of them is zero. -/
theorem Terminated.readsBack [DecidableEq α] (h : s.Terminated) : s.ReadsBack := by
  intro hne hno
  rcases h with ⟨hnull, -⟩ | hcell
  · exact absurd hnull hne
  · exact cstrContent_eq_take hcell hno

/-- Another string that is an operand is sound. -/
def Arg.Sound (pool : Pool) : Arg α → Prop
  | .self => True
  | .other t => t.Sound pool

/-- The operand is sound, be it the string itself or another one. -/
theorem Arg.Sound.get {arg : Arg α} (ha : arg.Sound pool) (h : s.Sound pool) :
    (arg.get s).Sound pool := by
  cases arg with
  | self => exact h
  | other t => exact ha

/-! ### Loops -/

/-- Cells behind the range that was written stay. -/
theorem slot_writes_iff {lo hi k : Nat} {f : Nat → α} {b b' : Buffer α}
    (hw : Buffer.Writes lo hi f b b') (hk : hi ≤ k) : Slot b' k ↔ Slot b k := by
  unfold Slot
  rw [hw.null, hw.get_of_le hk]

/-- Characters were written, and the size changed. -/
theorem Shape.of_writes (h : s.Shape pool) {lo hi n : Nat} {f : Nat → α} {b : Buffer α}
    (hw : Buffer.Writes lo hi f s.elements b) (hhi : hi ≤ s.space) (hn : n ≤ s.space) :
    Shape pool { s with elements := b, size := n } := by
  refine ⟨hn, ?_⟩
  rcases h.array with ⟨hnull, h0⟩ | hroom
  · exact .inl ⟨hw.null.mpr hnull, h0⟩
  · exact .inr ⟨hw.length.trans hroom.length, (hw.get_of_le hhi).trans hroom.last, hroom.limit⟩

/-- The loop that writes zeros. -/
theorem fillCells_spec (lo hi : Nat) {b : Buffer α} (hle : lo ≤ hi) (hlen : hi ≤ b.cells.length) :
    ∃ b', fillCells lo hi b = .ok b' ∧ Buffer.Writes lo hi (fun _ => default) b b' := by
  refine forRange_writes 0 hle hlen fun i q _ hlt hq => ?_
  exact Buffer.write_of_lt (by rw [hq.length]; omega) _

/-- The loop that copies the first characters of another array. -/
theorem copyCells_spec {src b : Buffer α} {n : Nat} (hsrc : n ≤ src.cells.length)
    (hb : n ≤ b.cells.length) :
    ∃ b', copyCells src n b = .ok b' ∧ Buffer.Writes 0 n src.get b b' := by
  refine forRange_writes 0 (Nat.zero_le _) hb fun i q _ hlt hq => ?_
  exact Buffer.write_read (by omega) (by rw [hq.length]; omega)

/-! ### New arrays -/

/-- An array with room for `n` characters that is filled up to `k`. -/
structure Fresh (pool : Pool) (k n : Nat) (b : Buffer α) : Prop where
  length : b.cells.length = n + 1
  limit : n + 1 ≤ pool.limit
  clear : ∀ j, k ≤ j → j ≤ n → b.cells[j]? = some default

/-- A string in a new array. -/
theorem Fresh.shape {k n : Nat} {b : Buffer α} (h : Fresh pool k n b) (hk : k ≤ n) :
    Shape pool ⟨k, b, n⟩ :=
  ⟨hk, .inr ⟨h.length, h.clear n hk (Nat.le_refl n), h.limit⟩⟩

/-- A new array is filled with zeros, so the terminator is there already. -/
theorem Fresh.sound {k n : Nat} {b : Buffer α} (h : Fresh pool k n b) (hk : k ≤ n) :
    Sound pool ⟨k, b, n⟩ :=
  ⟨h.shape hk, .inr (h.clear k (Nat.le_refl k) hk)⟩

/-- More characters at the end. -/
theorem Fresh.of_writes {lo k m n : Nat} {f : Nat → α} {b b' : Buffer α} (h : Fresh pool k n b)
    (hw : Buffer.Writes lo m f b b') (hkm : k ≤ m) : Fresh pool m n b' := by
  refine ⟨hw.length.trans h.length, h.limit, fun j hj hjn => ?_⟩
  rw [hw.get_of_le hj]
  exact h.clear j (by omega) hjn

/-- More than the pool has is not allocated. -/
theorem allocate_of_lt {n : Nat} (hlim : pool.limit < n + 1) (hn : n + 1 < 2 ^ 64) :
    (allocate pool n : Except BufferFault (Buffer α)) = .error .noMemory := by
  unfold allocate
  rw [sizeT_of_lt hn, Pool.allocate_of_lt hlim]
  rfl

/-- Up to its limit the pool gives new arrays. -/
theorem allocate_of_le {n : Nat} (hlim : n + 1 ≤ pool.limit) :
    ∃ b : Buffer α, allocate pool n = .ok b ∧ Fresh pool 0 n b := by
  have hmax := pool.limit_lt
  unfold allocate
  rw [sizeT_of_lt (by omega), Pool.allocate_of_le hlim]
  show ∃ b, (Buffer.array (List.replicate (n + 1) default)).write n default = .ok b ∧ _
  refine ⟨_, Buffer.write_of_lt (by simp) default, by simp, hlim, fun j _ hj => ?_⟩
  rw [Buffer.cells_array, Buffer.cells_array, List.getElem?_set]
  by_cases hnj : n = j
  · rw [if_pos hnj, if_pos (by simp)]
  · rw [if_neg hnj, List.getElem?_replicate, if_pos (by omega)]

/-- A request that can be counted gives a new array, or there is no memory. -/
theorem yields_allocate {n : Nat} (hn : n + 1 < 2 ^ 64) :
    Yields (allocate pool n : Except BufferFault (Buffer α)) (Fresh pool 0 n) := by
  rcases Nat.lt_or_ge pool.limit (n + 1) with hlim | hlim
  · rw [allocate_of_lt hlim hn]
    trivial
  · obtain ⟨b, hb, hfresh⟩ := allocate_of_le (α := α) hlim
    exact Yields.of_eq_ok hb hfresh

/-- The length of the array wraps around, and the terminator is written outside of it. -/
theorem allocate_max : (allocate pool (2 ^ 64 - 1) : Except BufferFault (Buffer α)) =
    .error .outOfBounds := by
  unfold allocate
  rw [show sizeT (2 ^ 64 - 1 + 1) = 0 by decide, Pool.allocate_of_le (Nat.zero_le _)]
  rfl

/-- Characters that are copied to a new array. -/
theorem yields_copyNew {src : Buffer α} {k n : Nat} (hsrc : k ≤ src.cells.length) (hk : k ≤ n)
    (hn : n + 1 < 2 ^ 64) :
    Yields (do copyCells src k (← allocate pool n)) (Fresh pool k n) := by
  refine Yields.bind (yields_allocate hn) fun b hb => ?_
  have hlen := hb.length
  obtain ⟨b', hb', hw⟩ := copyCells_spec (b := b) hsrc (by omega)
  exact Yields.of_eq_ok hb' (hb.of_writes hw (Nat.zero_le k))

/-! ### Constructors -/

/-- The default constructor makes no array. -/
theorem sound_construct : (construct : StringObj α).Sound pool :=
  ⟨⟨Nat.le_refl 0, .inl ⟨rfl, rfl⟩⟩, .inl rfl⟩

/-- The constructor for a size makes a string of zeros. -/
theorem yields_constructSize {n : Nat} (hn : n + 1 < 2 ^ 64) :
    Yields (constructSize pool n : Except BufferFault (StringObj α)) (Sound pool) := by
  refine Yields.bind (yields_allocate hn) fun b hb => ?_
  have hlen := hb.length
  obtain ⟨b', hb', hw⟩ := fillCells_spec 0 n (b := b) (Nat.zero_le n) (by omega)
  refine Yields.bind_ok hb' ?_
  exact (hb.of_writes hw (Nat.zero_le n)).sound (Nat.le_refl n)

/-- At the greatest size the request for the array wraps around. -/
theorem yieldsIff_constructSize (n : UInt64) :
    YieldsIff (Sound pool) Terminated (n.toNat + 1 < 2 ^ 64)
      (constructSize pool n.toNat : Except BufferFault (StringObj α)) := by
  by_cases hn : n.toNat + 1 < 2 ^ 64
  · exact .of_yields hn (yields_constructSize hn)
  · refine .of_fault hn ?_
    have hlt := n.toNat_lt
    rw [show n.toNat = 2 ^ 64 - 1 by omega]
    unfold constructSize
    rw [allocate_max]
    rfl

/-- A string in a new array that has as much room as there are characters. -/
theorem yields_exact {src : Buffer α} {n : Nat} (hsrc : n ≤ src.cells.length)
    (hn : n + 1 < 2 ^ 64) :
    Yields (do
      let elements ← copyCells src n (← allocate pool n)
      return (⟨n, elements, n⟩ : StringObj α)) (Sound pool) := by
  rw [← bind_assoc]
  refine Yields.bind (yields_copyNew hsrc (Nat.le_refl n) hn) fun b hb => ?_
  exact hb.sound (Nat.le_refl n)

/-- The copy constructor copies the characters and leaves the terminator of the new array. -/
theorem Shape.yields_copyConstruct (h : s.Shape pool) :
    Yields (s.copyConstruct pool) (Sound pool) := by
  have hspace := h.space_lt
  have hsize := h.size
  exact yields_exact h.size_le_cells (by omega)

/-! ### Assignment of a string -/

/-- What `operator=` asks of its operand: it does not fit in, or there is a terminator at its
length already. -/
def AssignKeeps (s : StringObj α) : Arg α → Prop
  | .self => True
  | .other t => s.space < t.size ∨ Slot s.elements t.size

/-- `operator=` writes no terminator, so one has to be there, or the array is a new one. -/
theorem Sound.yieldsIff_assign (h : s.Sound pool) {arg : Arg α} (ha : arg.Sound pool) :
    YieldsIff (Sound pool) Terminated (AssignKeeps s arg) (s.assign pool arg) := by
  cases arg with
  | self => exact .of_yields trivial h
  | other t =>
    have ht : t.Sound pool := ha
    have htspace := ht.space_lt
    have htsize := ht.size
    show YieldsIff _ _ _ (s.assignOther pool t)
    unfold assignOther
    rcases Nat.lt_or_ge s.space t.size with hlt | hle
    · rw [if_neg (Nat.not_le.mpr hlt)]
      exact .of_yields (.inl hlt) (yields_exact ht.size_le_cells (by omega))
    · -- The copy is made in place, and stops in front of the cell at the new size.
      rw [if_pos hle]
      have hspace := h.space_le_cells
      obtain ⟨b, hb, hw⟩ := copyCells_spec (b := s.elements) ht.size_le_cells (by omega)
      have hshape := h.toShape.of_writes hw hle hle
      exact hshape.yieldsIff_inPlace (by rw [hb]; rfl) (Nat.not_lt.mpr hle)
        (slot_writes_iff hw (Nat.le_refl t.size))

/-! ### More room -/

/-- A string with room for `n` characters, after `Reserve`. A new array is filled with zeros behind
the characters. -/
structure Reserved (pool : Pool) (n : Nat) (s s' : StringObj α) : Prop where
  shape : s'.Shape pool
  size : s'.size = s.size
  room : n ≤ s'.space
  slot : ∀ k, k ≤ n → (s.space < n → s.size ≤ k) →
    (Slot s'.elements k ↔ s.space < n ∨ Slot s.elements k)

/-- `Reserve` for more than the space makes a new array and copies the characters. -/
theorem Shape.yields_reserve_of_lt (h : s.Shape pool) {n : Nat} (hlt : s.space < n)
    (hn : n + 1 < 2 ^ 64) : Yields (s.reserve pool n) (Reserved pool n s) := by
  have hsize := h.size
  unfold reserve
  rw [if_neg (Nat.not_le.mpr hlt), ← bind_assoc]
  refine Yields.bind (yields_copyNew h.size_le_cells (by omega) hn) fun b hb => ?_
  refine ⟨hb.shape (by omega), rfl, Nat.le_refl n, fun k hk hsk => ?_⟩
  exact iff_of_true (.inr (hb.clear k (hsk hlt) hk)) (.inl hlt)

/-- `Reserve` for what is there does nothing. -/
theorem reserve_of_le {n : Nat} (hle : n ≤ s.space) : s.reserve pool n = .ok s := if_pos hle

/-- There is no memory for the greater array. -/
theorem reserve_noMemory {n : Nat} (hspace : s.space < n) (hlimit : pool.limit < n + 1)
    (hn : n + 1 < 2 ^ 64) : s.reserve pool n = .error .noMemory := by
  unfold reserve
  rw [if_neg (Nat.not_le.mpr hspace), allocate_of_lt hlimit hn]
  rfl

/-- There is memory for the greater array. -/
theorem Shape.reserve_new (h : s.Shape pool) {n : Nat} (hspace : s.space < n)
    (hlimit : n + 1 ≤ pool.limit) : ∃ s', s.reserve pool n = .ok s' ∧ s'.space = n := by
  have hsize := h.size
  obtain ⟨p, hp, hfresh⟩ := allocate_of_le (α := α) hlimit
  have hlen := hfresh.length
  obtain ⟨b, hb, -⟩ := copyCells_spec (b := p) h.size_le_cells (by omega)
  refine ⟨{ s with elements := b, space := n }, ?_, rfl⟩
  unfold reserve
  rw [if_neg (Nat.not_le.mpr hspace), hp]
  show (copyCells s.elements s.size p >>= _) = _
  rw [hb]
  rfl

/-- The string itself has the room. -/
theorem Shape.reserved_self (h : s.Shape pool) {n : Nat} (hle : n ≤ s.space) :
    Reserved pool n s s :=
  ⟨h, rfl, hle, fun _ _ _ => ⟨.inr, fun hc => hc.resolve_left (Nat.not_lt.mpr hle)⟩⟩

/-- `Reserve` gives the room, be it there already or new. -/
theorem Shape.yields_reserve (h : s.Shape pool) {n : Nat} (hn : s.space < n → n + 1 < 2 ^ 64) :
    Yields (s.reserve pool n) (Reserved pool n s) := by
  rcases Nat.lt_or_ge s.space n with hlt | hle
  · exact h.yields_reserve_of_lt hlt (hn hlt)
  · rw [reserve_of_le hle]
    exact h.reserved_self hle

/-- An operation that makes room for `n` characters, and then works in place up to `k`. -/
theorem Shape.yieldsIff_reserve_bind (h : s.Shape pool) {n : Nat}
    (hn : s.space < n → n + 1 < 2 ^ 64) (k : Nat) (hk : k ≤ n) (hsk : s.space < n → s.size ≤ k)
    {f : StringObj α → Except BufferFault (StringObj α)}
    (hf : ∀ s', Reserved pool n s s' → ∃ s'', f s' = .ok s'' ∧ s''.Shape pool ∧
      (Slot s''.elements s''.size ↔ Slot s'.elements k)) :
    YieldsIff (Sound pool) Terminated (s.space < n ∨ Slot s.elements k)
      (s.reserve pool n >>= f) := by
  rcases Nat.lt_or_ge s.space n with hlt | hle
  · have hnew := h.yields_reserve_of_lt hlt (hn hlt)
    refine .of_yields (.inl hlt) (Yields.bind hnew fun s' hs' => ?_)
    obtain ⟨s'', hs'', hshape, hslot⟩ := hf s' hs'
    exact Yields.of_eq_ok hs'' ⟨hshape, hslot.mpr ((hs'.slot k hk hsk).mpr (.inl hlt))⟩
  · obtain ⟨s'', hs'', hshape, hslot⟩ := hf s (h.reserved_self hle)
    rw [reserve_of_le hle]
    exact hshape.yieldsIff_inPlace hs'' (Nat.not_lt.mpr hle) hslot

/-- `Reserve` asks for a length that can be counted. -/
def ReserveKeeps (s : StringObj α) (n : Nat) : Prop := s.space < n → n + 1 < 2 ^ 64

/-- Room for the greatest length cannot be made. -/
theorem reserve_max {n : UInt64} (hn : ¬ ReserveKeeps s n.toNat) :
    s.reserve pool n.toNat = .error .outOfBounds := by
  have hlt := n.toNat_lt
  obtain ⟨hspace, hmax⟩ := Classical.not_imp.mp hn
  rw [show n.toNat = 2 ^ 64 - 1 by omega] at hspace ⊢
  unfold reserve
  rw [if_neg (Nat.not_le.mpr hspace), allocate_max]
  rfl

/-- A terminator stays behind the characters when the array is replaced. -/
theorem Sound.yieldsIff_reserve (h : s.Sound pool) (n : UInt64) :
    YieldsIff (Sound pool) Terminated (ReserveKeeps s n.toNat) (s.reserve pool n.toNat) := by
  by_cases hn : ReserveKeeps s n.toNat
  · refine .of_yields hn ?_
    rcases Nat.lt_or_ge s.space n.toNat with hlt | hle
    · have hsize := h.size
      refine (h.toShape.yields_reserve_of_lt hlt (hn hlt)).mono fun s' hs' => ⟨hs'.shape, ?_⟩
      rw [hs'.size]
      exact (hs'.slot s.size (by omega) fun _ => Nat.le_refl _).mpr (.inl hlt)
    · rw [reserve_of_le hle]
      exact h
  · exact .of_fault hn (reserve_max hn)

/-- `Resize` asks for a length that can be counted, or for a terminator at the new size. -/
def ResizeKeeps (s : StringObj α) (n : Nat) : Prop :=
  ReserveKeeps s n ∧ (s.space < n ∨ Slot s.elements n)

/-- The loop of `Resize`, after `Reserve`. A smaller size only cuts characters off. -/
theorem Shape.resize_fill (h : s.Shape pool) {n : Nat} (hn : n ≤ s.space) :
    ∃ s', (do
        let elements ← fillCells s.size n s.elements
        return { s with elements := elements, size := n }) = .ok s' ∧
      s'.Shape pool ∧ s'.size = n ∧ (Slot s'.elements n ↔ Slot s.elements n) := by
  have hspace := h.space_le_cells
  rcases Nat.le_total s.size n with hle | hle
  · -- The loop fills the new cells, but not the one behind them.
    obtain ⟨b, hb, hw⟩ := fillCells_spec s.size n (b := s.elements) hle (by omega)
    refine ⟨{ s with elements := b, size := n }, by rw [hb]; rfl, ?_, rfl, ?_⟩
    · exact h.of_writes hw hn hn
    · exact slot_writes_iff hw (Nat.le_refl _)
  · refine ⟨{ s with size := n }, ?_, ⟨hn, h.array⟩, rfl, Iff.rfl⟩
    unfold fillCells
    rw [forRange_of_le hle]
    rfl

/-- `Resize` fills with zeros up to the new size, and writes nothing behind it. -/
theorem Sound.yieldsIff_resize (h : s.Sound pool) (n : UInt64) (val : α) :
    YieldsIff (Sound pool) Terminated (ResizeKeeps s n.toNat) (s.resize pool n.toNat val) := by
  by_cases hn : ReserveKeeps s n.toNat
  · have hsize := h.size
    refine (h.toShape.yieldsIff_reserve_bind hn n.toNat (Nat.le_refl _) (by omega)
      fun s' hs' => ?_).congr (and_iff_right hn)
    obtain ⟨s'', hs'', hshape, hsize'', hslot⟩ := hs'.shape.resize_fill hs'.room
    refine ⟨s'', hs'', hshape, ?_⟩
    rw [hsize'']
    exact hslot
  · refine .of_fault (fun hc => hn hc.1) ?_
    unfold resize
    rw [reserve_max hn]
    rfl

/-! ### More characters -/

/-- `PushBack` has no room, or finds a terminator behind the new character. -/
def PushBackKeeps (s : StringObj α) : Prop := s.size = s.space ∨ Slot s.elements (s.size + 1)

/-- A character is written behind the others. -/
theorem Shape.pushBack_write (h : s.Shape pool) (hroom : s.size < s.space) (ele : α) :
    ∃ s', (do
        let elements ← s.elements.write s.size ele
        return { s with elements := elements, size := sizeT (s.size + 1) }) = .ok s' ∧
      s'.Shape pool ∧ (Slot s'.elements s'.size ↔ Slot s.elements (s.size + 1)) := by
  have hcells := h.space_le_cells
  have hspace := h.space_lt
  have hw := (Buffer.Writes.refl (f := fun _ => ele) (b := s.elements) (Nat.le_refl s.size)).set
    (Nat.le_refl s.size) (by omega)
  rw [sizeT_of_lt (by omega), Buffer.write_of_lt (by omega)]
  exact ⟨_, rfl, h.of_writes hw hroom hroom, slot_writes_iff hw (Nat.le_refl _)⟩

/-- `PushBack` writes the character, and nothing behind it. -/
theorem Sound.yieldsIff_pushBack (h : s.Sound pool) (ele : α) :
    YieldsIff (Sound pool) Terminated (PushBackKeeps s) (s.pushBack pool (.value ele)) := by
  have hsize := h.size
  have hspace := h.space_lt
  -- Behind the last character there is room for one more.
  have hgrow : ∀ n, s.size + 1 ≤ n → n + 1 < 2 ^ 64 → s.space < n → ∀ s', Reserved pool n s s' →
      ∃ s'', (do
          let elements ← s'.elements.write s'.size ele
          return { s' with elements := elements, size := sizeT (s'.size + 1) }) = .ok s'' ∧
        s''.Shape pool ∧ (Slot s''.elements s''.size ↔ Slot s'.elements (s.size + 1)) := by
    intro n hn _ _ s' hs'
    have hroom := hs'.room
    rw [← hs'.size]
    exact hs'.shape.pushBack_write (by rw [hs'.size]; omega) ele
  unfold pushBack growForPush PushBackKeeps
  by_cases h0 : s.space = 0
  · rw [if_pos h0]
    refine (h.toShape.yieldsIff_reserve_bind (by omega) (s.size + 1) (by omega) (by omega)
      (hgrow 8 (by omega) (by omega) (by omega))).congr ?_
    exact iff_of_true (.inl (by omega)) (.inl (by omega))
  · rw [if_neg h0]
    by_cases hfull : s.size = s.space
    · -- The room is doubled, and there was some.
      rw [if_pos hfull, sizeT_of_lt (by omega)]
      refine (h.toShape.yieldsIff_reserve_bind (by omega) (s.size + 1) (by omega) (by omega)
        (hgrow (2 * s.space) (by omega) (by omega) (by omega))).congr ?_
      exact iff_of_true (.inl hfull) (.inl (by omega))
    · rw [if_neg hfull]
      obtain ⟨s', hs', hshape, hslot⟩ := h.toShape.pushBack_write (by omega) ele
      exact hshape.yieldsIff_inPlace hs' hfull hslot

/-- A character of the string itself is pushed, and there is room: the character is still there
when it is read. -/
theorem Shape.pushBack_own_room (h : s.Shape pool) (hroom : s.size ≠ s.space) {k : Nat}
    (hk : k < s.size) (stale : Option α) :
    s.pushBack pool (.own k stale) = s.pushBack pool (.value (s.elements.get k)) := by
  have hsize := h.size
  have hcells := h.size_le_cells
  have hgrow : s.growForPush pool = .ok s := by
    unfold growForPush
    rw [if_neg (by omega), if_neg hroom]
  have hread : (Buffer.Ref.own k stale).read (decide (s.space < s.space)) s.elements =
      .ok (s.elements.get k) := by
    rw [decide_eq_false (Nat.lt_irrefl _)]
    exact Buffer.read_of_lt (by omega)
  unfold pushBack
  rw [hgrow]
  show ((Buffer.Ref.own k stale).read (decide (s.space < s.space)) s.elements >>= _) = _
  rw [hread]
  rfl

/-- A full string asks for twice the room. -/
theorem Shape.growForPush_full (h : s.Shape pool) (hfull : s.size = s.space) {k : Nat}
    (hk : k < s.size) : s.growForPush pool = s.reserve pool (2 * s.space) := by
  have hspace := h.space_lt
  unfold growForPush
  rw [if_neg (by omega), if_pos hfull, sizeT_of_lt (by omega)]

/-- A full string that gets no memory pushes nothing. -/
theorem Shape.pushBack_noMemory (h : s.Shape pool) (hfull : s.size = s.space) {k : Nat}
    (hk : k < s.size) (hmemory : pool.limit < 2 * s.space + 1) (ele : Buffer.Ref α) :
    s.pushBack pool ele = .error .noMemory := by
  have hspace := h.space_lt
  unfold pushBack
  rw [h.growForPush_full hfull hk, reserve_noMemory (by omega) hmemory (by omega)]
  rfl

/-- A character of a full string is read from the array that `Reserve` has deleted. -/
theorem Shape.pushBack_own_full (h : s.Shape pool) (hfull : s.size = s.space) {k : Nat}
    (hk : k < s.size) (hmemory : 2 * s.space + 1 ≤ pool.limit) :
    s.pushBack pool (.own k none) = .error .deleted ∧
      ∀ c, s.pushBack pool (.own k (some c)) = s.pushBack pool (.value c) := by
  obtain ⟨s', hs', hspace'⟩ := h.reserve_new (n := 2 * s.space) (by omega) hmemory
  have hgrown : decide (s.space < s'.space) = true := decide_eq_true (by omega)
  unfold pushBack
  rw [h.growForPush_full hfull hk, hs']
  constructor
  · show ((Buffer.Ref.own k none).read (decide (s.space < s'.space)) s'.elements >>= _) = _
    rw [hgrown]
    rfl
  · intro c
    show ((Buffer.Ref.own k (some c)).read (decide (s.space < s'.space)) s'.elements >>= _) = _
    rw [hgrown]
    rfl

/-- Whatever is read, the terminator depends on the room alone. -/
theorem Sound.fineIff_pushBack_own (h : s.Sound pool) {k : Nat} (hk : k < s.size)
    (stale : Option α) :
    FineIff (Sound pool) Terminated (PushBackKeeps s)
      (ignoreDeleted (s.pushBack pool (.own k stale))) := by
  by_cases hfull : s.size = s.space
  · rcases Nat.lt_or_ge pool.limit (2 * s.space + 1) with hmemory | hmemory
    · rw [h.toShape.pushBack_noMemory hfull hk hmemory]
      exact .of_yields (.inl hfull) trivial
    · obtain ⟨hdeleted, hstale⟩ := h.toShape.pushBack_own_full hfull hk hmemory
      cases stale with
      | none =>
        rw [hdeleted]
        exact .of_yields (.inl hfull) trivial
      | some c =>
        rw [hstale c]
        exact (h.yieldsIff_pushBack c).ignoreDeleted
  · rw [h.toShape.pushBack_own_room hfull hk]
    exact (h.yieldsIff_pushBack _).ignoreDeleted

/-- The doubled size has room for both operands. -/
theorem add_le_doubled {a b : Nat} (ha : a < 2 ^ 63) (hb : b < 2 ^ 63) :
    a + b ≤ doubled a b ∧ doubled a b + 1 < 2 ^ 64 := by
  unfold doubled
  rw [sizeT_of_lt (by omega)]
  omega

/-- `Append` makes a new array, or finds a terminator behind the new characters. -/
def AppendKeeps (s : StringObj α) (str : Arg α) : Prop :=
  s.space < doubled (str.get s).size s.size ∨ Slot s.elements (s.size + (str.get s).size)

/-- The operand in the loop of `Append` has the characters that it had before. If it is the string
itself, it reads from the array that is being filled, but in front of what was written. -/
theorem appendLoop_read {arg : Arg α} {b : Buffer α} {i m : Nat} {f : Nat → α}
    (harg : (arg.get s).Shape pool) (hw : Buffer.Writes s.size m f s.elements b)
    (hi : i < (arg.get s).size) :
    (arg.get { s with elements := b }).elements.read i = .ok ((arg.get s).elements.get i) := by
  have hcells := harg.size_le_cells
  cases arg with
  | self =>
    have hlt : i < s.size := hi
    have hin : i < s.elements.cells.length := Nat.lt_of_lt_of_le hlt hcells
    show b.read i = .ok (s.elements.get i)
    rw [Buffer.read_of_lt (by rw [hw.length]; exact hin)]
    unfold Buffer.get
    rw [hw.get_of_lt hlt]
  | other t => exact Buffer.read_of_lt (Nat.lt_of_lt_of_le hi hcells)

/-- The loop of `Append`. -/
theorem appendLoop_spec {arg : Arg α} (hs : s.Shape pool) (harg : (arg.get s).Shape pool)
    (hroom : (arg.get s).size + s.size ≤ s.space) :
    ∃ b f, forRange 0 (arg.get s).size (fun p index => do
        let c ← (arg.get { s with elements := p }).elements.read index
        p.write (index + s.size) c) s.elements = .ok b ∧
      Buffer.Writes s.size ((arg.get s).size + s.size) f s.elements b := by
  have hspace := hs.space_le_cells
  have hbody : ∀ i q, 0 ≤ i → i < (arg.get s).size → Buffer.Writes (0 + s.size) (i + s.size)
      (fun j => (arg.get s).elements.get (j - s.size)) s.elements q →
      (do
        let c ← (arg.get { s with elements := q }).elements.read i
        q.write (i + s.size) c) = .ok (.array (q.cells.set (i + s.size)
          ((arg.get s).elements.get (i + s.size - s.size)))) := by
    intro i q _ hi hq
    rw [Nat.zero_add] at hq
    rw [appendLoop_read harg hq hi, Nat.add_sub_cancel]
    exact Buffer.write_of_lt (by rw [hq.length]; omega) _
  obtain ⟨b, hb, hw⟩ := forRange_writes s.size (Nat.zero_le _) (by omega) hbody
  rw [Nat.zero_add] at hw
  exact ⟨b, _, hb, hw⟩

/-- `Append` copies the characters, and writes nothing behind them. -/
theorem Sound.yieldsIff_append (h : s.Sound pool) {arg : Arg α} (ha : arg.Sound pool) :
    YieldsIff (Sound pool) Terminated (AppendKeeps s arg) (s.append pool arg) := by
  have hspace := h.space_lt
  have hsize := h.size
  have harg := ha.get h
  have hargspace := harg.space_lt
  have hargsize := harg.size
  obtain ⟨hsum, hdouble⟩ := add_le_doubled (a := (arg.get s).size) (b := s.size) (by omega)
    (by omega)
  refine h.toShape.yieldsIff_reserve_bind (fun _ => hdouble) _ (by omega) (by omega)
    fun s' hs' => ?_
  have hspace' := hs'.shape.space_lt
  have hroom := hs'.room
  have hsize' := hs'.size
  have hget : (arg.get s').size = (arg.get s).size ∧ (arg.get s').Shape pool := by
    cases arg with
    | self => exact ⟨hs'.size, hs'.shape⟩
    | other t => exact ⟨rfl, harg.toShape⟩
  have hargsize' := hget.1
  obtain ⟨b, f, hb, hw⟩ := appendLoop_spec hs'.shape hget.2 (by omega)
  have hlast : s.size + (arg.get s).size = (arg.get s').size + s'.size := by omega
  refine ⟨{ s' with elements := b, size := sizeT (s'.size + (arg.get s').size) }, ?_, ?_⟩
  · dsimp only
    rw [hb]
    rfl
  · rw [sizeT_of_lt (by omega), hlast, Nat.add_comm s'.size]
    exact ⟨hs'.shape.of_writes hw (by omega) (by omega), slot_writes_iff hw (Nat.le_refl _)⟩

/-- `operator+` fills a new string, which has zeros behind its characters. -/
theorem Sound.yields_plus (h : s.Sound pool) {arg : Arg α} (ha : arg.Sound pool) :
    Yields (s.plus pool arg) (Sound pool) := by
  have hspace := h.space_lt
  have hsize := h.size
  have harg := ha.get h
  have hargspace := harg.space_lt
  have hargsize := harg.size
  obtain ⟨hsum, hdouble⟩ := add_le_doubled (a := (arg.get s).size) (b := s.size) (by omega)
    (by omega)
  unfold plus
  dsimp only
  rw [sizeT_of_lt (by omega)]
  refine Yields.bind (sound_construct.toShape.yields_reserve fun _ => hdouble) fun r1 h1 => ?_
  have hroom1 := h1.room
  have hslot1 : Slot r1.elements ((arg.get s).size + s.size) :=
    (h1.slot _ hsum fun _ => Nat.zero_le _).mpr (.inr (.inl rfl))
  unfold resize
  rw [reserve_of_le (by omega)]
  obtain ⟨r2, hr2, h2, hsize2, hslot2⟩ := h1.shape.resize_fill
    (n := (arg.get s).size + s.size) (by omega)
  refine Yields.bind_ok hr2 ?_
  have hspace2 := h2.size
  have hcells2 := h2.space_le_cells
  obtain ⟨b1, hb1, hw1⟩ := copyCells_spec (b := r2.elements) h.size_le_cells (by omega)
  refine Yields.bind_ok hb1 ?_
  have h3 := h2.of_writes hw1 (by omega) (n := r2.size) hspace2
  have hlen1 := hw1.length
  obtain ⟨b2, hb2, hw2⟩ : ∃ b2, forRange 0 (arg.get s).size (fun p index => do
      p.write (index + s.size) (← (arg.get s).elements.read index)) b1 = .ok b2 ∧
      Buffer.Writes (0 + s.size) ((arg.get s).size + s.size)
        (fun j => (arg.get s).elements.get (j - s.size)) b1 b2 := by
    refine forRange_writes s.size (Nat.zero_le _) (by omega) fun i q _ hi hq => ?_
    have hcells := harg.size_le_cells
    rw [Nat.add_sub_cancel]
    exact Buffer.write_read (by omega) (by rw [hq.length]; omega)
  refine Yields.bind_ok hb2 ⟨h3.of_writes hw2 (show _ ≤ r2.space by omega) hspace2, ?_⟩
  -- No loop reaches the cell behind the characters.
  show Slot b2 r2.size
  rw [hsize2]
  exact (slot_writes_iff hw2 (Nat.le_refl _)).mpr ((slot_writes_iff hw1 (by omega)).mpr
    (hslot2.mpr hslot1))

/-! ### Strings of the system -/

section
variable [DecidableEq α]

/-- The length of a C string is counted in an `int`. -/
theorem yieldsIff_constructCstr (cstr : List α) :
    YieldsIff (Sound pool) Terminated ((cstrContent cstr).length < 2 ^ 31)
      (constructCstr pool cstr) := by
  unfold constructCstr
  by_cases hn : (cstrContent cstr).length < 2 ^ 31
  · rw [if_pos hn]
    exact .of_yields hn (yields_exact (Nat.le_refl _) (by omega))
  · rw [if_neg hn]
    exact .of_fault hn rfl

/-- In place, `operator=` of a C string fills the rest of the array with zeros. -/
theorem Sound.yields_assignCstr (h : s.Sound pool) (cstr : CStringOperand α) :
    Yields (s.assignCstr pool cstr.chars) (Sound pool) := by
  have hlen : (cstrContent cstr.chars).length + 1 < 2 ^ 64 :=
    Nat.lt_of_le_of_lt (Nat.succ_le_succ (List.takeWhile_prefix _).length_le) cstr.length_lt
  unfold assignCstr
  generalize cstrContent cstr.chars = l at hlen ⊢
  dsimp only
  rcases Nat.lt_or_ge s.space l.length with hlt | hle
  · rw [if_neg (Nat.not_le.mpr hlt)]
    exact yields_exact (Nat.le_refl _) hlen
  · rw [if_pos hle]
    have hspace := h.space_le_cells
    have hsrc : l.length ≤ (Buffer.array l).cells.length := Nat.le_refl _
    obtain ⟨b1, hb1, hw1⟩ := copyCells_spec (b := s.elements) hsrc (by omega)
    refine Yields.bind_ok hb1 ?_
    have h1 := h.toShape.of_writes hw1 hle hle
    obtain ⟨b2, hb2, hw2⟩ := fillCells_spec l.length s.space (b := b1) hle
      (by rw [hw1.length]; exact hspace)
    refine Yields.bind_ok hb2 ⟨h1.of_writes hw2 (Nat.le_refl _) hle, ?_⟩
    show Slot b2 l.length
    rcases Nat.lt_or_eq_of_le hle with hlt | heq
    · right
      rw [hw2.get, if_pos ⟨Nat.le_refl _, hlt⟩]
    · -- There is no cell to fill. The last terminator follows the characters.
      rcases h1.array with ⟨hnull, -⟩ | hroom
      · exact .inl (hw2.null.mpr hnull)
      · right
        rw [hw2.get_of_le (Nat.le_of_eq heq.symm), heq]
        exact hroom.last

end

end

/-- Characters of a `UNICODE_STRING` in a new array, and a terminator behind them. -/
theorem yields_ofUnicode {pool : Pool} {str : UnicodeString} {n : Nat}
    (hlen : str.chars.length ≤ n) (hn : n + 1 < 2 ^ 64) :
    Yields (do
      let elements ← copyCells (.array str.chars) (str.length / 2) (← allocate pool n)
      let elements ← elements.write (str.length / 2) 0
      return (⟨str.length / 2, elements, n⟩ : StringObj WChar)) (Sound pool) := by
  have hsize : str.length / 2 = str.chars.length := Nat.mul_div_cancel_left _ (by decide)
  rw [hsize, ← bind_assoc]
  refine Yields.bind (yields_copyNew (Nat.le_refl _) hlen hn) fun b hb => ?_
  have hcells := hb.length
  have hw := (Buffer.Writes.refl (f := fun _ => (0 : WChar)) (b := b)
    (Nat.le_refl str.chars.length)).set (Nat.le_refl _) (by omega)
  rw [Buffer.write_of_lt (by omega)]
  refine ⟨⟨hlen, .inr ⟨hw.length.trans hcells, ?_, hb.limit⟩⟩, .inr ?_⟩
  · show _ = some (0 : WChar)
    rw [hw.get]
    split
    · rfl
    · exact hb.clear n hlen (Nat.le_refl n)
  · show _ = some (0 : WChar)
    rw [hw.get]
    exact if_pos ⟨Nat.le_refl _, Nat.lt_succ_self _⟩

/-- What the constructor from `UNICODE_STRING` asks for. The one for `char` works for an empty
string only, or has no memory to begin with. -/
def UnicodeKeeps {inst : Inhabited α} (T : ElementType α inst) (pool : Pool)
    (str : UnicodeString) : Prop :=
  match T with
  | .char => str.chars = [] ∨ pool.limit < str.chars.length + 1
  | .wchar => True
  | .other => True

/-- The loop for `char` runs out of the string. -/
theorem charLoop_fault {str : UnicodeString} (hne : str.chars ≠ []) {p : Buffer UInt8}
    (hp : str.chars.length ≤ p.cells.length) :
    forRange 0 str.length (fun p i => do
      p.write i (← (Buffer.array str.chars).read i).toUInt8) p = .error .outOfBounds := by
  have hpos := List.length_pos_iff.mpr hne
  -- The first half of the loop copies the whole string.
  have hhalf : ∃ b, forRange 0 str.chars.length (fun p i => do
      p.write i (← (Buffer.array str.chars).read i).toUInt8) p = .ok b ∧
      Buffer.Writes 0 str.chars.length (fun i => ((Buffer.array str.chars).get i).toUInt8) p b := by
    refine forRange_writes 0 (Nat.zero_le _) hp fun i q _ hi hq => ?_
    rw [Buffer.read_of_lt hi]
    exact Buffer.write_of_lt (by rw [hq.length]; omega) _
  obtain ⟨b, hb, -⟩ := hhalf
  have hlen : str.length = 2 * str.chars.length := rfl
  rw [forRange_split (Nat.zero_le str.chars.length) (by omega), hb]
  show forRange _ _ _ _ = _
  rw [forRange_of_lt (by omega)]
  unfold Buffer.read
  rw [Buffer.cells_array, List.getElem?_eq_none (Nat.le_refl _)]
  rfl

/-- The constructor for `char` that finds no memory. -/
theorem constructChar_noMemory {pool : Pool} {str : UnicodeString}
    (hlim : pool.limit < str.chars.length + 1) (hlt : str.chars.length + 1 < 2 ^ 64) :
    constructUnicode .char pool str = some (.error .noMemory) := by
  have hsize : str.length / 2 = str.chars.length := Nat.mul_div_cancel_left _ (by decide)
  unfold constructUnicode
  dsimp only
  rw [hsize, allocate_of_lt hlim hlt]
  rfl

/-- The constructor for `char`, for an empty string. The only cell is the terminator. -/
theorem constructChar_nil {pool : Pool} {str : UnicodeString} (hnil : str.chars = [])
    (hlim : 1 ≤ pool.limit) :
    constructUnicode .char pool str = some (.ok ⟨0, .array [0], 0⟩) := by
  have hlen : str.length = 0 := by
    unfold UnicodeString.length
    rw [hnil]
    rfl
  have halloc : (allocate pool 0 : Except BufferFault (Buffer UInt8)) = .ok (.array [0]) := by
    unfold allocate
    rw [sizeT_of_lt (by omega), Pool.allocate_of_le hlim]
    rfl
  unfold constructUnicode
  dsimp only
  rw [hlen, halloc]
  rfl

/-- The constructor for `char`, for any other string. -/
theorem constructChar_fault {pool : Pool} {str : UnicodeString} (hne : str.chars ≠ [])
    (hlim : str.chars.length + 1 ≤ pool.limit) :
    constructUnicode .char pool str = some (.error .outOfBounds) := by
  have hsize : str.length / 2 = str.chars.length := Nat.mul_div_cancel_left _ (by decide)
  obtain ⟨p, hp, hfresh⟩ := allocate_of_le (α := UInt8) hlim
  have hcells := hfresh.length
  unfold constructUnicode
  dsimp only
  rw [hsize, hp]
  show some (forRange 0 str.length _ p >>= _) = _
  rw [charLoop_fault hne (by omega)]
  rfl

/-- The constructor from `UNICODE_STRING`, for both types of characters. -/
theorem yieldsIff_constructUnicode {inst : Inhabited α} (T : ElementType α inst) {pool : Pool}
    (str : UnicodeOperand) {x : Except BufferFault (StringObj α)}
    (hx : constructUnicode T pool str.toUnicodeString = some x) :
    YieldsIff (Sound pool) Terminated (UnicodeKeeps T pool str.toUnicodeString) x := by
  have hfits := str.fits
  have hmax := str.maximumLength_lt
  cases T with
  | other => cases hx
  | wchar =>
    have hsize : str.length / 2 = str.chars.length := Nat.mul_div_cancel_left _ (by decide)
    cases hx
    exact .of_yields trivial (yields_ofUnicode (by omega) (by omega))
  | char =>
    rcases Nat.lt_or_ge pool.limit (str.chars.length + 1) with hlim | hlim
    · rw [constructChar_noMemory hlim (by omega)] at hx
      cases hx
      exact .of_yields (.inr hlim) trivial
    · by_cases hnil : str.chars = []
      · rw [constructChar_nil hnil (by omega)] at hx
        cases hx
        refine .of_yields (.inl hnil) ?_
        exact ⟨⟨Nat.le_refl 0, .inr ⟨rfl, rfl, by show 0 + 1 ≤ _; omega⟩⟩, .inr rfl⟩
      · rw [constructChar_fault hnil hlim] at hx
        cases hx
        refine .of_fault (fun hc => ?_) rfl
        rcases hc with hc | hc
        · exact hnil hc
        · omega

/-- The assignment from `UNICODE_STRING` makes a new array in any case. -/
theorem yields_assignUnicode {inst : Inhabited α} (T : ElementType α inst) {pool : Pool}
    (str : Option UnicodeOperand) {x : Except BufferFault (StringObj α)}
    (hx : assignUnicode T pool (str.map (·.toUnicodeString)) = some x) :
    Yields x (Sound pool) := by
  cases T with
  | other => cases hx
  | char => cases hx
  | wchar =>
    cases hx
    cases str with
    | none => exact sound_construct
    | some str =>
      have hfits := str.fits
      have hmax := str.maximumLength_lt
      have hlen : str.chars.length ≤ str.maximumLength := by omega
      exact yields_ofUnicode hlen (show str.maximumLength + 1 < 2 ^ 64 by omega)

end StringObj

/-! ### Programs -/

open StringObj

/-- The condition for a call that needs the string `i`, if there is one. -/
def KeepsAt (ss : List (StringObj α)) (i : Nat) (c : StringObj α → Prop) : Prop :=
  ∀ s, ss[i]? = some s → c s

/-- The condition for a call with the string `j` as the operand of the string `i`. -/
def KeepsWith (ss : List (StringObj α)) (i j : Nat) (c : StringObj α → Arg α → Prop) : Prop :=
  KeepsAt ss i fun s => if i = j then c s .self else KeepsAt ss j fun t => c s (.other t)

section
variable [Inhabited α] (pool : Pool)

/-- Every string is sound. -/
def AllSound (ss : List (StringObj α)) : Prop := ∀ s ∈ ss, s.Sound pool

/-- Every string is terminated. -/
def AllTerminated (ss : List (StringObj α)) : Prop := ∀ s ∈ ss, s.Terminated

variable {pool} {ss : List (StringObj α)}

/-- One more string. -/
theorem AllSound.append (h : AllSound pool ss) {s : StringObj α} (hs : s.Sound pool) :
    AllSound pool (ss ++ [s]) := by
  intro t ht
  rcases List.mem_append.mp ht with ht | ht
  · exact h t ht
  · rw [List.mem_singleton.mp ht]
    exact hs

/-- One string is replaced. -/
theorem AllSound.set (h : AllSound pool ss) (i : Nat) {s : StringObj α} (hs : s.Sound pool) :
    AllSound pool (ss.set i s) := by
  intro t ht
  rcases List.mem_or_eq_of_mem_set ht with ht | rfl
  · exact h t ht
  · exact hs

/-! Calls with no condition. -/

/-- A constructor adds a string, or makes a fault that counts. -/
theorem AllSound.yields_newString (h : AllSound pool ss) {x : Except BufferFault (StringObj α)}
    (hx : Yields x (Sound pool)) : Yields (newString ss x) (AllSound pool) :=
  hx.map fun _ hs => h.append hs

/-- A call of a member function, by what it does to one string. -/
theorem AllSound.yields_atString (h : AllSound pool ss) {i : Nat}
    {f : StringObj α → Except BufferFault (List (StringObj α))}
    (hf : ∀ s, s.Sound pool → Yields (f s) (AllSound pool)) :
    Yields (atString ss i f) (AllSound pool) := by
  unfold atString
  cases hs : ss[i]? with
  | none => exact h
  | some s => exact hf s (h s (List.mem_of_getElem? hs))

/-- A call that changes one string. -/
theorem AllSound.yields_onString (h : AllSound pool ss) {i : Nat}
    {f : StringObj α → Except BufferFault (StringObj α)}
    (hf : ∀ s, s.Sound pool → Yields (f s) (Sound pool)) :
    Yields (onString ss i f) (AllSound pool) :=
  h.yields_atString fun s hs => (hf s hs).map fun _ hs' => h.set i hs'

/-- A call with another string, or the string itself, as operand. -/
theorem AllSound.yields_withArg (h : AllSound pool ss) {i j : Nat}
    {f : Arg α → Except BufferFault (List (StringObj α))}
    (hf : ∀ arg, arg.Sound pool → Yields (f arg) (AllSound pool)) :
    Yields (withArg ss i j f) (AllSound pool) := by
  unfold withArg
  split
  · exact hf .self trivial
  · exact h.yields_atString fun t ht => hf (.other t) ht

/-! Calls with a condition. -/

/-- A constructor, with the condition under which its string is terminated. -/
theorem AllSound.yieldsIff_newString (h : AllSound pool ss) {c : Prop}
    {x : Except BufferFault (StringObj α)} (hx : YieldsIff (Sound pool) Terminated c x) :
    YieldsIff (AllSound pool) AllTerminated c (newString ss x) :=
  hx.map (fun _ hs => h.append hs) fun s hs => hs s (by simp)

/-- A call of a member function, with a condition on its string. -/
theorem AllSound.yieldsIff_atString (h : AllSound pool ss) {i : Nat} {c : StringObj α → Prop}
    {f : StringObj α → Except BufferFault (List (StringObj α))}
    (hf : ∀ s, ss[i]? = some s → s.Sound pool →
      YieldsIff (AllSound pool) AllTerminated (c s) (f s)) :
    YieldsIff (AllSound pool) AllTerminated (KeepsAt ss i c) (atString ss i f) := by
  unfold atString KeepsAt
  cases hs : ss[i]? with
  | none => exact .of_yields (fun s hs' => by cases hs') h
  | some s =>
    refine (hf s hs (h s (List.mem_of_getElem? hs))).congr ⟨fun hc => hc s rfl, fun hc s' hs' => ?_⟩
    rw [← Option.some.inj hs']
    exact hc

/-- A call that changes one string, with a condition on it. -/
theorem AllSound.yieldsIff_onString (h : AllSound pool ss) {i : Nat} {c : StringObj α → Prop}
    {f : StringObj α → Except BufferFault (StringObj α)}
    (hf : ∀ s, s.Sound pool → YieldsIff (Sound pool) Terminated (c s) (f s)) :
    YieldsIff (AllSound pool) AllTerminated (KeepsAt ss i c) (onString ss i f) := by
  refine h.yieldsIff_atString fun s hs hsound => ?_
  obtain ⟨hi, -⟩ := List.getElem?_eq_some_iff.mp hs
  exact (hf s hsound).map (fun _ hs' => h.set i hs') fun s' hall => hall s' (List.mem_set hi s')

/-- A call with an operand, with a condition on both strings. -/
theorem AllSound.yieldsIff_withArg (h : AllSound pool ss) {i j : Nat}
    {c : StringObj α → Arg α → Prop}
    {f : StringObj α → Arg α → Except BufferFault (StringObj α)}
    (hf : ∀ s arg, s.Sound pool → arg.Sound pool →
      YieldsIff (Sound pool) Terminated (c s arg) (f s arg)) :
    YieldsIff (AllSound pool) AllTerminated (KeepsWith ss i j c)
      (withArg ss i j fun arg => onString ss i fun s => f s arg) := by
  unfold withArg KeepsWith
  by_cases hij : i = j
  · simp only [if_pos hij]
    exact h.yieldsIff_onString fun s hs => hf s .self hs trivial
  · simp only [if_neg hij]
    have hcall := h.yieldsIff_atString (i := j) fun t _ ht =>
      h.yieldsIff_onString (i := i) fun s hs => hf s (.other t) hs ht
    exact hcall.congr ⟨fun hc t ht s hs => hc s hs t ht, fun hc s hs t ht => hc t ht s hs⟩

end

section
variable [Inhabited α] {pool : Pool} {ss : List (StringObj α)}

/-- A `PushBack` of a character. It keeps the strings sound like one of its value. -/
theorem AllSound.fineIff_pushBackElement (h : AllSound pool ss) {i j k : Nat}
    {stale : Option α} :
    FineIff (AllSound pool) AllTerminated
      ((∃ t, ss[j]? = some t ∧ k < t.size) → KeepsAt ss i PushBackKeeps)
      (ignoreDeleted (withCharacter ss i j k stale fun ele =>
        onString ss i fun s => s.pushBack pool ele)) := by
  unfold withCharacter atString
  cases ht : ss[j]? with
  | none => exact .of_yields (fun hex => by obtain ⟨t, ht', -⟩ := hex; cases ht') h
  | some t =>
    have hsound := h t (List.mem_of_getElem? ht)
    by_cases hk : k < t.size
    · simp only [if_pos hk]
      refine FineIff.congr (c := KeepsAt ss i PushBackKeeps) ?_
        ⟨fun hc => hc ⟨t, rfl, hk⟩, fun hc _ => hc⟩
      by_cases hij : i = j
      · -- The character is one of the string itself.
        subst hij
        obtain ⟨hi, -⟩ := List.getElem?_eq_some_iff.mp ht
        rw [if_pos rfl]
        unfold onString atString KeepsAt
        simp only [ht]
        rw [KernelEventsTrace.ignoreDeleted_map]
        refine ((hsound.fineIff_pushBack_own hk stale).map (fun _ hs' => h.set i hs')
          fun s' hall => hall s' (List.mem_set hi s')).congr
            ⟨fun hc => hc t rfl, fun hc s hs => ?_⟩
        rw [← Option.some.inj hs]
        exact hc
      · have hread : t.index k = .ok (t.elements.get k) := by
          have hcells := hsound.size_le_cells
          exact Buffer.read_of_lt (by omega)
        rw [if_neg hij, hread]
        exact (h.yieldsIff_onString fun s hs => hs.yieldsIff_pushBack _).ignoreDeleted
    · simp only [if_neg hk]
      refine .of_yields (fun hex => ?_) h
      obtain ⟨t', ht', hk'⟩ := hex
      obtain rfl := Option.some.inj ht'
      exact absurd hk' hk

end

section
variable [inst : Inhabited α] [DecidableEq α] (T : ElementType α inst) (pool : Pool)

/-- What a call asks of its operands and of the strings before it. -/
def CallKeeps (ss : List (StringObj α)) : StringOp α → Prop
  | .constructSize size => size.toNat + 1 < 2 ^ 64
  | .constructCstr cstr => (cstrContent cstr.chars).length < 2 ^ 31
  | .constructUnicode s => UnicodeKeeps T pool s.toUnicodeString
  | .assign i j => KeepsWith ss i j AssignKeeps
  | .reserve i newSize => KeepsAt ss i fun s => ReserveKeeps s newSize.toNat
  | .resize i newSize _ => KeepsAt ss i fun s => ResizeKeeps s newSize.toNat
  | .pushBack i _ => KeepsAt ss i PushBackKeeps
  | .pushBackElement i j k _ =>
    (∃ t, ss[j]? = some t ∧ k.toNat < t.size) → KeepsAt ss i PushBackKeeps
  | .append i j => KeepsWith ss i j AppendKeeps
  | .addAssign i j => KeepsWith ss i j AppendKeeps
  | .construct => True
  | .copyConstruct _ => True
  | .assignCstr _ _ => True
  | .assignUnicode _ _ => True
  | .plus _ _ => True

variable {T pool} {ss : List (StringObj α)}

/-- Every call keeps all strings sound if it gets what it asks for. If not, it makes a fault or
leaves a string without a terminator. -/
theorem AllSound.yieldsIff_step (h : AllSound pool ss) (op : StringOp α)
    (hop : ¬ op.PushesElement) :
    YieldsIff (AllSound pool) AllTerminated (CallKeeps T pool ss op)
      (stepStrings T pool ss op) := by
  cases op with
  | construct => exact .of_yields trivial (h.yields_newString sound_construct)
  | constructSize size => exact h.yieldsIff_newString (yieldsIff_constructSize size)
  | copyConstruct j =>
    exact .of_yields trivial (h.yields_atString fun t ht =>
      h.yields_newString ht.toShape.yields_copyConstruct)
  | constructCstr cstr => exact h.yieldsIff_newString (yieldsIff_constructCstr cstr.chars)
  | constructUnicode s =>
    show YieldsIff _ _ _ (ifDefined ss (constructUnicode T pool s.toUnicodeString) _)
    cases hx : constructUnicode T pool s.toUnicodeString with
    | none =>
      refine .of_yields ?_ h
      cases T with
      | wchar => cases hx
      | char => cases hx
      | other => trivial
    | some x => exact h.yieldsIff_newString (yieldsIff_constructUnicode T s hx)
  | assign i j => exact h.yieldsIff_withArg fun s arg hs ha => hs.yieldsIff_assign ha
  | assignCstr i cstr =>
    exact .of_yields trivial (h.yields_onString fun s hs => hs.yields_assignCstr cstr)
  | assignUnicode i s =>
    refine .of_yields trivial ?_
    show Yields (ifDefined ss (assignUnicode T pool (s.map (·.toUnicodeString))) _) _
    cases hx : assignUnicode T pool (s.map (·.toUnicodeString)) with
    | none => exact h
    | some x => exact h.yields_onString fun _ _ => yields_assignUnicode T s hx
  | reserve i newSize => exact h.yieldsIff_onString fun s hs => hs.yieldsIff_reserve newSize
  | resize i newSize val => exact h.yieldsIff_onString fun s hs => hs.yieldsIff_resize newSize val
  | pushBack i ele => exact h.yieldsIff_onString fun s hs => hs.yieldsIff_pushBack ele
  | pushBackElement i j k stale => exact absurd trivial hop
  | append i j => exact h.yieldsIff_withArg fun s arg hs ha => hs.yieldsIff_append ha
  | addAssign i j => exact h.yieldsIff_withArg fun s arg hs ha => hs.yieldsIff_append ha
  | plus i j =>
    exact .of_yields trivial (h.yields_withArg fun arg ha =>
      h.yields_atString fun s hs => h.yields_newString (hs.yields_plus ha))

/-- The same for all calls, where a read of a deleted character is no fault. -/
theorem AllSound.fineIff_step (h : AllSound pool ss) (op : StringOp α) :
    FineIff (AllSound pool) AllTerminated (CallKeeps T pool ss op)
      (ignoreDeleted (stepStrings T pool ss op)) := by
  by_cases hop : op.PushesElement
  · cases op with
    | pushBackElement i j k stale => exact h.fineIff_pushBackElement
    | _ => exact absurd hop id
  · exact (h.yieldsIff_step op hop).ignoreDeleted

variable (T pool)

/-- At every point of the program no access left its array, and every string is terminated and
reads back as a C string. A read of a character that was deleted gives what lies there, or ends the
program. -/
def StringsTerminated (ops : List (StringOp α)) : Prop :=
  ∀ pre, pre <+: ops → runStrings T pool pre ≠ .error .outOfBounds ∧
    ∀ ss, runStrings T pool pre = .ok ss → ∀ s ∈ ss, s.Terminated ∧ s.ReadsBack

/-- Every call gets what it asks for. -/
def CallsKeep (ops : List (StringOp α)) : Prop :=
  ∀ pre op, pre ++ [op] <+: ops → ∀ ss, runStrings T pool pre = .ok ss → CallKeeps T pool ss op

variable {T pool}

/-- All strings of a program are terminated throughout if and only if every call gets what it asks
for. -/
theorem stringsTerminated_iff (T : ElementType α inst) (pool : Pool) (ops : List (StringOp α)) :
    StringsTerminated T pool ops ↔ CallsKeep T pool ops := by
  have hinit : AllSound pool ([] : List (StringObj α)) := by
    intro s hs
    cases hs
  have hfine : ∀ ss : List (StringObj α), AllSound pool ss →
      ∀ s ∈ ss, s.Terminated ∧ s.ReadsBack := by
    intro ss h s hs
    exact ⟨(h s hs).terminated, (h s hs).terminated.readsBack⟩
  -- A call that does not get what it asks for leaves a string without a terminator.
  have hstep : ∀ ss op, AllSound pool ss → FineIff (AllSound pool)
      (fun ss => ∀ s ∈ ss, s.Terminated ∧ s.ReadsBack) (CallKeeps T pool ss op)
      (ignoreDeleted (stepStrings T pool ss op)) := by
    intro ss op h
    exact (h.fineIff_step op).mono fun _ hall s hs => (hall s hs).1
  exact throughout_ignoreDeleted_iff hinit hfine ops hstep

end

/-- A string with three characters is assigned one with a single character. -/
def assignShorter : List (StringOp WChar) :=
  [.constructCstr ⟨[97, 98, 99], by decide⟩, .constructCstr ⟨[97], by decide⟩, .assign 0 1]

/-- The string then has one character, and two old ones behind it. -/
theorem not_stringsTerminated_assignShorter :
    runStrings .wchar ⟨64, by decide⟩ assignShorter =
        .ok [⟨1, .array [97, 98, 99, 0], 3⟩, ⟨1, .array [97, 0], 1⟩] ∧
      ¬ StringsTerminated .wchar ⟨64, by decide⟩ assignShorter := by
  have hrun : runStrings .wchar ⟨64, by decide⟩ assignShorter =
      .ok [⟨1, .array [97, 98, 99, 0], 3⟩, ⟨1, .array [97, 0], 1⟩] := rfl
  refine ⟨hrun, fun h => ?_⟩
  have hterm := ((h _ (List.prefix_refl _)).2 _ hrun ⟨1, .array [97, 98, 99, 0], 3⟩ (by simp)).1
  rcases hterm with ⟨-, hsize⟩ | hcell
  · cases hsize
  · exact absurd hcell (by decide)

end KernelEventsTrace.Driver.Std
