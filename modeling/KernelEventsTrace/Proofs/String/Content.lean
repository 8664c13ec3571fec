import KernelEventsTrace.Driver.Std.StringSpec
import KernelEventsTrace.Proofs.Resize

/-!
# `KernelEventsTrace.Proofs.String.Content`: what the member functions of `String` do

The characters of a string do not depend on its terminator. A string of the right shape may have
lost it, and every member function still does to the characters what it is meant to do (`Has`),
but for the value of `Resize`.
-/

set_option autoImplicit false

namespace KernelEventsTrace.Driver.Std

open KernelEventsTrace (BufferFault Buffer forRange forRange_writes Yields)

variable {α : Type}

/-- An empty list, filled up. -/
theorem resizeTo_nil (n : Nat) (a : α) : resizeTo [] n a = List.replicate n a := by
  unfold resizeTo
  rw [List.take_nil, List.nil_append, List.length_nil, Nat.sub_zero]

namespace StringObj

section
variable [Inhabited α]

/-! ### Specification -/

/-- A string of the right shape with the characters `l`. Nothing is said about the terminator. -/
structure Has (pool : Pool) (l : List α) (s : StringObj α) : Prop extends Shape pool s where
  content : s.content = l

variable {pool : Pool} {s t : StringObj α}

/-- A string has its own content. -/
theorem Shape.has (h : s.Shape pool) : Has pool s.content s := ⟨h, rfl⟩

/-- A string is inside of its array. -/
theorem Shape.bounded (h : s.Shape pool) : s.Bounded := ⟨h.size, h.space_le_cells⟩

/-- The content has as many characters as the size says. -/
theorem Shape.length_content (h : s.Shape pool) : s.content.length = s.size := by
  unfold StringObj.content
  rw [List.length_take]
  exact Nat.min_eq_left h.size_le_cells

/-- Another string that is an operand has the right shape. -/
def Arg.Shape (pool : Pool) : Arg α → Prop
  | .self => True
  | .other t => t.Shape pool

/-- The operand has its shape, be it the string itself or another one. -/
theorem Arg.Shape.get {arg : Arg α} (ha : arg.Shape pool) (h : s.Shape pool) :
    (arg.get s).Shape pool := by
  cases arg with
  | self => exact h
  | other t => exact ha

/-! ### Loops -/

/-- The characters that a copy leaves at the front. -/
theorem take_copyCells {src b b' : Buffer α} {n : Nat} (hn : n ≤ src.cells.length)
    (hw : Buffer.Writes 0 n src.get b b') : b'.cells.take n = src.cells.take n := by
  rw [hw.take_eq (Nat.zero_le n) (Nat.zero_le _), List.take_zero, List.nil_append]
  exact Buffer.map_get_range' hn 0

/-- The characters that a copy leaves behind `n` others. -/
theorem take_appended {src b b' : Buffer α} {k n : Nat} (hk : k ≤ src.cells.length)
    (hn : n ≤ b.cells.length)
    (hw : Buffer.Writes n (k + n) (fun j => src.get (j - n)) b b') :
    b'.cells.take (k + n) = b.cells.take n ++ src.cells.take k := by
  rw [hw.take_eq (Nat.le_add_left n k) hn, Nat.add_sub_cancel, Buffer.map_get_range' hk]

/-- A loop that clears the cells from `m` up to `n`, or none. -/
theorem take_fillCells {b b' : Buffer α} {m n : Nat} (hm : m ≤ b.cells.length) (hle : m ≤ n)
    (hw : Buffer.Writes m n (fun _ => default) b b') :
    b'.cells.take n = resizeTo (b.cells.take m) n default := by
  unfold resizeTo
  rw [hw.take_eq hle hm, List.map_const', List.length_range', List.take_take, List.length_take,
    Nat.min_eq_left hm, Nat.min_eq_right hle]

/-! ### New arrays -/

/-- Characters that are copied to a new array. -/
theorem yields_newCopy {src : Buffer α} {k n : Nat} (hsrc : k ≤ src.cells.length) (hk : k ≤ n)
    (hn : n + 1 < 2 ^ 64) :
    Yields (do copyCells src k (← allocate pool n)) fun b =>
      Fresh pool k n b ∧ b.cells.take k = src.cells.take k := by
  refine Yields.bind (yields_allocate hn) fun b hb => ?_
  have hlen := hb.length
  obtain ⟨b', hb', hw⟩ := copyCells_spec (b := b) hsrc (by omega)
  exact Yields.of_eq_ok hb' ⟨hb.of_writes hw (Nat.zero_le k), take_copyCells hsrc hw⟩

/-- A string in a new array that has as much room as there are characters. -/
theorem yields_newExact {src : Buffer α} {n : Nat} (hsrc : n ≤ src.cells.length)
    (hn : n + 1 < 2 ^ 64) :
    Yields (do
      let elements ← copyCells src n (← allocate pool n)
      return (⟨n, elements, n⟩ : StringObj α)) (Has pool (src.cells.take n)) := by
  rw [← bind_assoc]
  exact Yields.bind (yields_newCopy hsrc (Nat.le_refl n) hn) fun b hb =>
    ⟨hb.1.shape (Nat.le_refl n), hb.2⟩

/-! ### Constructors and assignment -/

/-- The default constructor makes the empty text. -/
theorem has_construct : Has pool [] (construct : StringObj α) := ⟨sound_construct.toShape, rfl⟩

/-- The constructor for a size makes zeros. -/
theorem yields_constructZeros {n : Nat} (hn : n + 1 < 2 ^ 64) :
    Yields (constructSize pool n : Except BufferFault (StringObj α))
      (Has pool (List.replicate n default)) := by
  refine Yields.bind (yields_allocate hn) fun b hb => ?_
  have hlen := hb.length
  obtain ⟨b', hb', hw⟩ := fillCells_spec 0 n (b := b) (Nat.zero_le n) (by omega)
  refine Yields.bind_ok hb' ⟨(hb.of_writes hw (Nat.zero_le n)).shape (Nat.le_refl n), ?_⟩
  show b'.cells.take n = _
  rw [take_fillCells (Nat.zero_le _) (Nat.zero_le n) hw, List.take_zero]
  exact resizeTo_nil n default

/-- A copy has the same content. -/
theorem Shape.yields_copy (h : s.Shape pool) :
    Yields (s.copyConstruct pool) (Has pool s.content) := by
  have hspace := h.space_lt
  have hsize := h.size
  exact yields_newExact h.size_le_cells (by omega)

/-- `operator=` copies all characters, in place or not. -/
theorem Shape.yields_assign (h : s.Shape pool) {arg : Arg α} (ha : arg.Shape pool) :
    Yields (s.assign pool arg) (Has pool (arg.get s).content) := by
  cases arg with
  | self => exact h.has
  | other t =>
    have ht : t.Shape pool := ha
    show Yields (s.assignOther pool t) _
    unfold assignOther
    by_cases hle : t.size ≤ s.space
    · rw [if_pos hle]
      have hspace := h.space_le_cells
      obtain ⟨b, hb, hw⟩ := copyCells_spec (b := s.elements) ht.size_le_cells (by omega)
      exact Yields.bind_ok hb ⟨h.of_writes hw hle hle, take_copyCells ht.size_le_cells hw⟩
    · rw [if_neg hle]
      exact ht.yields_copy

/-! ### More room -/

/-- `Reserve` keeps the characters, and makes the room that it was asked for. -/
theorem Shape.yields_reserved (h : s.Shape pool) {n : Nat} (hn : ReserveKeeps s n) :
    Yields (s.reserve pool n) fun s' =>
      Has pool s.content s' ∧ s'.size = s.size ∧ n ≤ s'.space := by
  have hsize := h.size
  unfold reserve
  by_cases hle : n ≤ s.space
  · rw [if_pos hle]
    exact ⟨h.has, rfl, hle⟩
  · rw [if_neg hle, ← bind_assoc]
    have hlt := Nat.lt_of_not_le hle
    exact Yields.bind (yields_newCopy h.size_le_cells (by omega) (hn hlt)) fun b hb =>
      ⟨⟨hb.1.shape (by omega), hb.2⟩, rfl, Nat.le_refl n⟩

/-- `Resize` cuts characters off, or adds zeros. -/
theorem Shape.yields_resized (h : s.Shape pool) {n : Nat} (hn : ReserveKeeps s n) (val : α) :
    Yields (s.resize pool n val) fun s' =>
      Has pool (resizeTo s.content n default) s' ∧ s'.size = n := by
  refine Yields.bind (h.yields_reserved hn) ?_
  rintro s1 ⟨h1, -, hroom⟩
  have hspace := h1.space_le_cells
  rw [← h1.content]
  rcases Nat.le_total s1.size n with hle | hle
  · obtain ⟨b, hb, hw⟩ := fillCells_spec s1.size n (b := s1.elements) hle (by omega)
    refine Yields.bind_ok hb ⟨⟨h1.of_writes hw hroom hroom, ?_⟩, rfl⟩
    exact take_fillCells h1.size_le_cells hle hw
  · -- The loop has no rounds, and only the size changes.
    refine Yields.bind_ok (forRange_of_le hle) ⟨⟨⟨hroom, h1.array⟩, ?_⟩, rfl⟩
    have hlen := h1.length_content
    unfold resizeTo
    rw [Nat.sub_eq_zero_of_le (by omega), List.replicate_zero, List.append_nil]
    show s1.elements.cells.take n = (s1.elements.cells.take s1.size).take n
    rw [List.take_take, Nat.min_eq_left hle]

/-! ### More characters -/

/-- The string has room for one more character. -/
theorem Shape.yields_grown (h : s.Shape pool) :
    Yields (s.growForPush pool) fun s' =>
      Has pool s.content s' ∧ s'.size < s'.space := by
  have hspace := h.space_lt
  have hsize := h.size
  -- Any room beyond the characters will do.
  have hgrow : ∀ n, s.size < n → n + 1 < 2 ^ 64 →
      Yields (s.reserve pool n) fun s' => Has pool s.content s' ∧ s'.size < s'.space := by
    intro n hn hlt
    refine (h.yields_reserved fun _ => hlt).mono ?_
    rintro s' ⟨h', heq, hroom⟩
    exact ⟨h', by omega⟩
  unfold growForPush
  by_cases h0 : s.space = 0
  · rw [if_pos h0]
    exact hgrow 8 (by omega) (by omega)
  · rw [if_neg h0]
    by_cases hfull : s.size = s.space
    · rw [if_pos hfull, sizeT_of_lt (by omega)]
      exact hgrow _ (by omega) (by omega)
    · rw [if_neg hfull]
      exact ⟨h.has, by omega⟩

/-- A character is put at the end. -/
theorem Shape.yields_pushed (h : s.Shape pool) (ele : α) :
    Yields (s.pushBack pool (.value ele)) (Has pool (s.content ++ [ele])) := by
  refine Yields.bind h.yields_grown ?_
  rintro s1 ⟨h1, hlt⟩
  have hspace := h1.space_lt
  have hcells := h1.space_le_cells
  have hw := (Buffer.Writes.refl (f := fun _ => ele) (b := s1.elements)
    (Nat.le_refl s1.size)).set (Nat.le_refl s1.size) (by omega)
  refine Yields.bind_ok (a := ele) rfl ?_
  refine Yields.bind_ok (Buffer.write_of_lt (by omega) ele) ?_
  rw [sizeT_of_lt (by omega)]
  refine ⟨h1.of_writes hw hlt hlt, ?_⟩
  show (Buffer.array (s1.elements.cells.set s1.size ele)).cells.take (s1.size + 1) = _
  rw [hw.take_eq (Nat.le_succ _) (by omega), ← h1.content, Nat.add_sub_cancel_left]
  rfl

/-- The loop of `Append` writes the characters that the operand had before. -/
theorem appendLoop_writes {arg : Arg α} (hs : s.Shape pool) (harg : (arg.get s).Shape pool)
    (hroom : (arg.get s).size + s.size ≤ s.space) :
    ∃ b, forRange 0 (arg.get s).size (fun p index => do
        let c ← (arg.get { s with elements := p }).elements.read index
        p.write (index + s.size) c) s.elements = .ok b ∧
      Buffer.Writes s.size ((arg.get s).size + s.size)
        (fun j => (arg.get s).elements.get (j - s.size)) s.elements b := by
  have hspace := hs.space_le_cells
  have hloop : ∃ b, forRange 0 (arg.get s).size (fun p index => do
      let c ← (arg.get { s with elements := p }).elements.read index
      p.write (index + s.size) c) s.elements = .ok b ∧
      Buffer.Writes (0 + s.size) ((arg.get s).size + s.size)
        (fun j => (arg.get s).elements.get (j - s.size)) s.elements b := by
    refine forRange_writes s.size (Nat.zero_le _) (by omega) fun i q _ hi hq => ?_
    rw [Nat.zero_add] at hq
    rw [appendLoop_read harg hq hi, Nat.add_sub_cancel]
    exact Buffer.write_of_lt (by rw [hq.length]; omega) _
  rw [Nat.zero_add] at hloop
  exact hloop

/-- The content of the operand is put at the end, also if that is the string itself. -/
theorem Shape.yields_appended (h : s.Shape pool) {arg : Arg α} (ha : arg.Shape pool) :
    Yields (s.append pool arg) (Has pool (s.content ++ (arg.get s).content)) := by
  have hspace := h.space_lt
  have hsize := h.size
  have harg := ha.get h
  have hargspace := harg.space_lt
  have hargsize := harg.size
  obtain ⟨hsum, hdouble⟩ := add_le_doubled (a := (arg.get s).size) (b := s.size) (by omega)
    (by omega)
  refine Yields.bind (h.yields_reserved fun _ => hdouble) ?_
  rintro s1 ⟨h1, hsize1, hroom⟩
  have harg1 := ha.get h1.toShape
  have hsame : (arg.get s1).size = (arg.get s).size ∧
      (arg.get s1).content = (arg.get s).content := by
    cases arg with
    | self => exact ⟨hsize1, h1.content⟩
    | other t => exact ⟨rfl, rfl⟩
  have hargsize1 := hsame.1
  have hspace1 := h1.space_lt
  obtain ⟨b, hb, hw⟩ := appendLoop_writes h1.toShape harg1 (by omega)
  refine Yields.bind_ok hb ?_
  rw [sizeT_of_lt (by omega), Nat.add_comm s1.size]
  refine ⟨h1.of_writes hw (by omega) (by omega), ?_⟩
  rw [← h1.content, ← hsame.2]
  exact take_appended harg1.size_le_cells h1.size_le_cells hw

/-- `operator+` fills a new string from both operands. -/
theorem Shape.yields_sum (h : s.Shape pool) {arg : Arg α} (ha : arg.Shape pool) :
    Yields (s.plus pool arg) (Has pool (s.content ++ (arg.get s).content)) := by
  have hspace := h.space_lt
  have hsize := h.size
  have harg := ha.get h
  have hargspace := harg.space_lt
  have hargsize := harg.size
  obtain ⟨hsum, hdouble⟩ := add_le_doubled (a := (arg.get s).size) (b := s.size) (by omega)
    (by omega)
  unfold plus
  dsimp only
  rw [sizeT_of_lt (by omega)]
  refine Yields.bind (has_construct.yields_reserved fun _ => hdouble) ?_
  rintro r1 ⟨h1, -, hroom1⟩
  refine Yields.bind (h1.yields_resized (by unfold ReserveKeeps; omega) default) ?_
  rintro r2 ⟨h2, hsize2⟩
  have hspace2 := h2.size
  have hcells2 := h2.space_le_cells
  obtain ⟨b1, hb1, hw1⟩ := copyCells_spec (b := r2.elements) h.size_le_cells (by omega)
  refine Yields.bind_ok hb1 ?_
  have h3 := h2.of_writes hw1 (by omega) hspace2
  have hlen1 := hw1.length
  have hloop : ∃ b2, forRange 0 (arg.get s).size (fun p index => do
      p.write (index + s.size) (← (arg.get s).elements.read index)) b1 = .ok b2 ∧
      Buffer.Writes (0 + s.size) ((arg.get s).size + s.size)
        (fun j => (arg.get s).elements.get (j - s.size)) b1 b2 := by
    refine forRange_writes s.size (Nat.zero_le _) (by omega) fun i q _ hi hq => ?_
    have hcells := harg.size_le_cells
    rw [Nat.add_sub_cancel]
    exact Buffer.write_read (by omega) (by rw [hq.length]; omega)
  rw [Nat.zero_add] at hloop
  obtain ⟨b2, hb2, hw2⟩ := hloop
  refine Yields.bind_ok hb2 ⟨h3.of_writes hw2 (show _ ≤ r2.space by omega) hspace2, ?_⟩
  show b2.cells.take r2.size = _
  rw [hsize2, take_appended harg.size_le_cells (by omega) hw2, take_copyCells h.size_le_cells hw1]
  rfl

/-! ### Strings of the system -/

/-- A list of characters, copied as a whole. -/
theorem yields_exactList {l : List α} (hn : l.length + 1 < 2 ^ 64) :
    Yields (do
      let elements ← copyCells (.array l) l.length (← allocate pool l.length)
      return (⟨l.length, elements, l.length⟩ : StringObj α)) (Has pool l) := by
  have hsrc : l.length ≤ (Buffer.array l).cells.length := Nat.le_refl _
  refine (yields_newExact hsrc hn).mono fun s hs => ⟨hs.toShape, ?_⟩
  rw [hs.content, Buffer.cells_array, List.take_length]

section
variable [DecidableEq α]

/-- The characters up to the first zero are copied. -/
theorem yields_ofCstr {cstr : List α} (hn : (cstrContent cstr).length < 2 ^ 31) :
    Yields (constructCstr pool cstr) (Has pool (cstrContent cstr)) := by
  unfold constructCstr
  rw [if_pos hn]
  exact yields_exactList (by omega)

/-- An assignment from a C string, in the old array or in a new one. -/
theorem Shape.yields_assignCstr (h : s.Shape pool) (cstr : CStringOperand α) :
    Yields (s.assignCstr pool cstr.chars) (Has pool (cstrContent cstr.chars)) := by
  have hlen : (cstrContent cstr.chars).length + 1 < 2 ^ 64 :=
    Nat.lt_of_le_of_lt (Nat.succ_le_succ (List.takeWhile_prefix _).length_le) cstr.length_lt
  unfold assignCstr
  generalize cstrContent cstr.chars = l at hlen ⊢
  dsimp only
  by_cases hle : l.length ≤ s.space
  · rw [if_pos hle]
    have hspace := h.space_le_cells
    have hsrc : l.length ≤ (Buffer.array l).cells.length := Nat.le_refl _
    obtain ⟨b1, hb1, hw1⟩ := copyCells_spec (b := s.elements) hsrc (by omega)
    refine Yields.bind_ok hb1 ?_
    have h1 := h.of_writes hw1 hle hle
    obtain ⟨b2, hb2, hw2⟩ := fillCells_spec l.length s.space (b := b1) hle
      (by rw [hw1.length]; exact hspace)
    refine Yields.bind_ok hb2 ⟨h1.of_writes hw2 (Nat.le_refl _) hle, ?_⟩
    -- The zeros are written behind the characters.
    have hkeep : b2.cells.take l.length = b1.cells.take l.length := by
      refine List.ext_getElem? fun j => ?_
      rw [List.getElem?_take, List.getElem?_take]
      by_cases hj : j < l.length
      · rw [if_pos hj, if_pos hj, hw2.get_of_lt hj]
      · rw [if_neg hj, if_neg hj]
    show b2.cells.take l.length = l
    rw [hkeep, take_copyCells hsrc hw1]
    exact List.take_length
  · rw [if_neg hle]
    exact yields_exactList hlen

end

end

/-- Characters of a `UNICODE_STRING` in a new array. The terminator is written behind them. -/
theorem yields_ofChars {pool : Pool} {str : UnicodeString} {n : Nat}
    (hlen : str.chars.length ≤ n) (hn : n + 1 < 2 ^ 64) :
    Yields (do
      let elements ← copyCells (.array str.chars) (str.length / 2) (← allocate pool n)
      let elements ← elements.write (str.length / 2) 0
      return (⟨str.length / 2, elements, n⟩ : StringObj WChar)) (Has pool str.chars) := by
  have hsize : str.length / 2 = str.chars.length := Nat.mul_div_cancel_left _ (by decide)
  have hcontent : Yields (do
      let elements ← copyCells (.array str.chars) (str.length / 2) (← allocate pool n)
      let elements ← elements.write (str.length / 2) 0
      return (⟨str.length / 2, elements, n⟩ : StringObj WChar))
      fun s => s.content = str.chars := by
    rw [hsize, ← bind_assoc]
    refine Yields.bind (yields_newCopy (Nat.le_refl _) hlen hn) ?_
    rintro b ⟨hb, hcopy⟩
    have hcells := hb.length
    refine Yields.bind_ok (Buffer.write_of_lt (by omega) 0) ?_
    show (b.cells.set str.chars.length 0).take str.chars.length = str.chars
    rw [List.take_set_of_le (Nat.le_refl _), hcopy]
    exact List.take_length
  exact ((yields_ofUnicode hlen hn).and hcontent).mono fun s hs => ⟨hs.1.toShape, hs.2⟩

end StringObj

end KernelEventsTrace.Driver.Std
