import KernelEventsTrace.Proofs.String.Terminated
import KernelEventsTrace.Proofs.Vector.Content

/-!
# `KernelEventsTrace.Proofs.Resize`: the value for the new elements

`Resize` of `Vector` and `String` takes a value for the new elements, but its loop writes `T()`.

`resize_fill_iff`: the value is respected if and only if there are no new elements, or the value is
`T()`, or there is no memory and `Resize` never returns. The greatest size is the exception for
strings: the length of their array wraps around.
-/

set_option autoImplicit false

namespace KernelEventsTrace.Driver.Std

open KernelEventsTrace (BufferFault Buffer forRange Yields)

variable {α : Type}

/-- Two values that fill up a list to the same list. -/
theorem resizeTo_eq_iff {l : List α} {n : Nat} {a b : α} :
    resizeTo l n a = resizeTo l n b ↔ n ≤ l.length ∨ a = b := by
  unfold resizeTo
  rw [List.append_cancel_left_eq, List.replicate_inj, Nat.sub_eq_zero_iff_le]
  exact and_iff_right rfl

section
variable [Inhabited α] (pool : Pool)

/-- `Resize(n, val)`, if it returns, leaves `n` elements: the first ones as they were, and the
others equal to `val`. -/
def VectorObj.FillsTo (v : VectorObj α) (n : Nat) (val : α) : Prop :=
  Yields (v.resize pool n val) fun v' => v'.size = n ∧ v'.content = resizeTo v.content n val

/-- The same for a string. -/
def StringObj.FillsTo (s : StringObj α) (n : Nat) (val : α) : Prop :=
  Yields (s.resize pool n val) fun s' => s'.size = n ∧ s'.content = resizeTo s.content n val

end

/-- `size_ <= space_`, and the array has at least `space_` characters. -/
structure StringObj.Bounded (s : StringObj α) : Prop where
  size : s.size ≤ s.space
  space : s.space ≤ s.elements.cells.length

/-! ### Vectors -/

namespace VectorObj

variable [Inhabited α] {pool : Pool} {v : VectorObj α}

/-- There is no memory for the new array. -/
theorem reserve_noMemory {n : Nat} (hspace : v.space < n) (hlimit : pool.limit < n) :
    v.reserve pool n = .error .noMemory := by
  unfold reserve
  rw [if_neg (Nat.not_le.mpr hspace), Pool.allocate_of_lt hlimit]
  rfl

/-- There is room, or memory for a new array. -/
theorem Bounded.reserve_ok (h : v.Bounded) {n : Nat} (hn : v.space < n → n ≤ pool.limit) :
    ∃ v', v.reserve pool n = .ok v' ∧ v'.size = v.size ∧ v'.content = v.content ∧
      v.size ≤ v'.elements.cells.length ∧ n ≤ v'.elements.cells.length := by
  have hsize := h.size
  have hspace := h.space
  rcases Nat.lt_or_ge v.space n with hlt | hle
  · obtain ⟨p, hp, hw⟩ := copyElements_spec (v := v) (p := .array (List.replicate n default))
      (by omega) (by simp; omega)
    refine ⟨{ v with elements := p, space := n }, ?_, rfl, take_copyElements (by omega) hw, ?_⟩
    · unfold reserve
      rw [if_neg (Nat.not_le.mpr hlt), Pool.allocate_of_le (hn hlt)]
      show (v.copyElements _ >>= _) = _
      rw [hp]
      rfl
    · have hlen := hw.length
      rw [Buffer.cells_array, List.length_replicate] at hlen
      exact ⟨by show v.size ≤ p.cells.length; omega, Nat.le_of_eq hlen.symm⟩
  · exact ⟨v, if_pos hle, rfl, rfl, by omega, by omega⟩

/-- `Resize` fills with the default, whatever value it is given. -/
theorem Bounded.resize_ok (h : v.Bounded) {n : Nat} (hn : v.space < n → n ≤ pool.limit) (val : α) :
    ∃ v', v.resize pool n val = .ok v' ∧ v'.size = n ∧
      v'.content = resizeTo v.content n default := by
  obtain ⟨v1, hv1, hsize, hcontent, hcell, hroom⟩ := h.reserve_ok hn
  obtain ⟨b, hb, -, htake⟩ := fillLoop_spec (m := v1.size) (n := n) (by omega) hroom
  refine ⟨{ v1 with elements := b, size := n }, ?_, rfl, ?_⟩
  · unfold resize
    rw [hv1]
    show (forRange v1.size n _ v1.elements >>= _) = _
    rw [hb]
    rfl
  · rw [← hcontent]
    exact htake

/-- The value makes no difference, or there is no memory. -/
theorem Bounded.fillsTo_iff (h : v.Bounded) (n : Nat) (val : α) :
    v.FillsTo pool n val ↔
      n ≤ v.size ∨ val = default ∨ (v.space < n ∧ pool.limit < n) := by
  have hsize := h.size
  have hspace := h.space
  by_cases hmemory : v.space < n ∧ pool.limit < n
  · refine iff_of_true ?_ (.inr (.inr hmemory))
    unfold FillsTo resize
    rw [reserve_noMemory hmemory.1 hmemory.2]
    trivial
  · have hroom : v.space < n → n ≤ pool.limit := by omega
    obtain ⟨v', hv', hsize', hcontent⟩ := h.resize_ok hroom val
    have hlen := length_content (v := v) (by omega)
    unfold FillsTo
    rw [hv']
    show v'.size = n ∧ v'.content = resizeTo v.content n val ↔ _
    rw [hcontent, resizeTo_eq_iff, hlen, eq_comm (a := default)]
    simp only [hsize', hmemory, true_and, or_false]

end VectorObj

/-! ### Strings -/

namespace StringObj

variable [Inhabited α] {pool : Pool} {s : StringObj α}

/-- There is room, or memory for a new array. -/
theorem Bounded.reserve_ok (h : s.Bounded) {n : Nat} (hn : s.space < n → n + 1 ≤ pool.limit) :
    ∃ s', s.reserve pool n = .ok s' ∧ s'.size = s.size ∧ s'.content = s.content ∧
      s.size ≤ s'.elements.cells.length ∧ n ≤ s'.elements.cells.length := by
  have hsize := h.size
  have hspace := h.space
  rcases Nat.lt_or_ge s.space n with hlt | hle
  · obtain ⟨p, hp, hfresh⟩ := allocate_of_le (α := α) (hn hlt)
    have hcells := hfresh.length
    have hcopied : s.size ≤ s.elements.cells.length := by omega
    obtain ⟨b, hb, hw⟩ := copyCells_spec (b := p) hcopied (by omega)
    refine ⟨{ s with elements := b, space := n }, ?_, rfl, ?_, ?_⟩
    · unfold reserve
      rw [if_neg (Nat.not_le.mpr hlt), hp]
      show (copyCells s.elements s.size p >>= _) = _
      rw [hb]
      rfl
    · show b.cells.take s.size = s.content
      rw [hw.take_eq (Nat.zero_le _) (Nat.zero_le _), List.take_zero, List.nil_append]
      exact Buffer.map_get_range' (by omega) 0
    · have hlen := hw.length
      exact ⟨by show s.size ≤ b.cells.length; omega, by show n ≤ b.cells.length; omega⟩
  · exact ⟨s, if_pos hle, rfl, rfl, by omega, by omega⟩

/-- `Resize` fills with zeros, whatever value it is given. -/
theorem Bounded.resize_ok (h : s.Bounded) {n : Nat} (hn : s.space < n → n + 1 ≤ pool.limit)
    (val : α) :
    ∃ s', s.resize pool n val = .ok s' ∧ s'.size = n ∧
      s'.content = resizeTo s.content n default := by
  obtain ⟨s1, hs1, hsize, hcontent, hcell, hroom⟩ := h.reserve_ok hn
  obtain ⟨b, hb, -, htake⟩ := VectorObj.fillLoop_spec (m := s1.size) (n := n) (by omega) hroom
  refine ⟨{ s1 with elements := b, size := n }, ?_, rfl, ?_⟩
  · unfold resize
    rw [hs1]
    show (forRange s1.size n _ s1.elements >>= _) = _
    rw [hb]
    rfl
  · rw [← hcontent]
    exact htake

/-- The value makes no difference, or there is no memory. -/
theorem Bounded.fillsTo_iff (h : s.Bounded) (n : UInt64) (val : α) :
    s.FillsTo pool n.toNat val ↔
      n.toNat ≤ s.size ∨ ((s.space < n.toNat → n.toNat + 1 < 2 ^ 64) ∧
        (val = default ∨ (s.space < n.toNat ∧ pool.limit < n.toNat + 1))) := by
  have hsize := h.size
  have hspace := h.space
  unfold FillsTo
  by_cases hkeeps : ReserveKeeps s n.toNat
  · by_cases hmemory : s.space < n.toNat ∧ pool.limit < n.toNat + 1
    · refine iff_of_true ?_ (.inr ⟨hkeeps, .inr hmemory⟩)
      unfold resize
      rw [reserve_noMemory hmemory.1 hmemory.2 (hkeeps hmemory.1)]
      trivial
    · have hroom : s.space < n.toNat → n.toNat + 1 ≤ pool.limit := by omega
      obtain ⟨s', hs', hsize', hcontent⟩ := h.resize_ok hroom val
      have hlen : s.content.length = s.size := by
        unfold content
        rw [List.length_take]
        omega
      rw [hs']
      show s'.size = n.toNat ∧ s'.content = resizeTo s.content n.toNat val ↔ _
      rw [hcontent, resizeTo_eq_iff, hlen, eq_comm (a := default)]
      simp only [hsize', hmemory, true_and, or_false]
      exact or_congr_right (and_iff_right hkeeps).symm
  · -- The array of the greatest size has no elements.
    unfold resize
    rw [reserve_max hkeeps]
    refine iff_of_false id fun hc => ?_
    rcases hc with hle | hc
    · obtain ⟨hlt, -⟩ := Classical.not_imp.mp hkeeps
      omega
    · exact hkeeps hc.1

end StringObj

/-! ### Results -/

/-- `Resize` respects its value exactly if that makes no difference, or it does not return. -/
theorem resize_fill_iff [Inhabited α] (pool : Pool) :
    (∀ (v : VectorObj α) (n : UInt64) (val : α), v.Bounded →
      (v.FillsTo pool n.toNat val ↔
        n.toNat ≤ v.size ∨ val = default ∨ (v.space < n.toNat ∧ pool.limit < n.toNat))) ∧
    ∀ (s : StringObj α) (n : UInt64) (val : α), s.Bounded →
      (s.FillsTo pool n.toNat val ↔
        n.toNat ≤ s.size ∨ ((s.space < n.toNat → n.toNat + 1 < 2 ^ 64) ∧
          (val = default ∨ (s.space < n.toNat ∧ pool.limit < n.toNat + 1)))) := by
  constructor
  · intro v n val h
    exact h.fillsTo_iff n.toNat val
  · intro s n val h
    exact h.fillsTo_iff n val

/-- Elements are cut off from a vector, and zeros are added to a string. -/
theorem resize_fill_shorter :
    (⟨2, .array [1, 2], 2⟩ : VectorObj Nat).FillsTo ⟨64, by decide⟩ 1 7 ∧
    (⟨1, .array [97, 0], 1⟩ : StringObj WChar).FillsTo ⟨64, by decide⟩ 3 0 := by
  constructor
  · exact ((resize_fill_iff ⟨64, by decide⟩).1 _ 1 7 ⟨by decide, by decide⟩).mpr (.inl (by decide))
  · exact ((resize_fill_iff ⟨64, by decide⟩).2 _ 3 0 ⟨by decide, by decide⟩).mpr
      (.inr ⟨by decide, .inl rfl⟩)

/-- A vector with the element 1 is given the size 3 and the value 7, and then has 1, 0, 0. -/
theorem not_resize_fill :
    (⟨1, .array [1], 1⟩ : VectorObj Nat).resize ⟨64, by decide⟩ 3 7 =
      .ok ⟨3, .array [1, 0, 0], 3⟩ ∧
    ¬ (⟨1, .array [1], 1⟩ : VectorObj Nat).FillsTo ⟨64, by decide⟩ 3 7 ∧
    ¬ (⟨1, .array [97, 0], 1⟩ : StringObj WChar).FillsTo ⟨64, by decide⟩ 3 98 := by
  have hvector : (⟨1, .array [1], 1⟩ : VectorObj Nat).resize ⟨64, by decide⟩ 3 7 =
      .ok ⟨3, .array [1, 0, 0], 3⟩ := rfl
  have hstring : (⟨1, .array [97, 0], 1⟩ : StringObj WChar).resize ⟨64, by decide⟩ 3 98 =
      .ok ⟨3, .array [97, 0, 0, 0], 3⟩ := rfl
  refine ⟨hvector, fun h => ?_, fun h => ?_⟩
  · exact absurd (h.value hvector).2 (by decide)
  · exact absurd (h.value hstring).2 (by decide)

end KernelEventsTrace.Driver.Std
