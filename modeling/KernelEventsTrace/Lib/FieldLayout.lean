import Mathlib.Data.List.Forall2

/-!
# `KernelEventsTrace.Lib.FieldLayout`: where a field starts in a record

A record is written field after field. `R p bytes` says that `bytes` is a value of the field `p`,
so the values of a record are in `List.Forall₂ R`. A field starts where the ones in front of it
end. `offset_eq_iff` says when that is one place for all records: when each field in front of it
has values of one length only.
-/

set_option autoImplicit false

namespace KernelEventsTrace.FieldLayout

variable {α β : Type}

/-- Where the field `k` starts. -/
def offset (values : List (List β)) (k : Nat) : Nat := (values.take k).flatten.length

/-- Nothing stands in front of the first value. -/
@[simp] theorem offset_zero (values : List (List β)) : offset values 0 = 0 := rfl

/-- The first value stands in front of the others. -/
@[simp] theorem offset_succ (bytes : List β) (values : List (List β)) (k : Nat) :
    offset (bytes :: values) (k + 1) = bytes.length + offset values k := by
  simp [offset]

/-- No field starts behind the end of the record. -/
theorem offset_le (values : List (List β)) (k : Nat) : offset values k ≤ values.flatten.length := by
  induction values generalizing k with
  | nil => simp [offset]
  | cons bytes values ih =>
    cases k with
    | zero => exact Nat.zero_le _
    | succ k =>
      have hrest := ih k
      rw [offset_succ, List.flatten_cons, List.length_append]
      omega

/-- The record in front of a field, the field, and the rest. -/
theorem flatten_eq {values : List (List β)} {k : Nat} {bytes : List β}
    (hk : values[k]? = some bytes) :
    values.flatten =
      (values.take k).flatten ++ (bytes ++ (values.drop (k + 1)).flatten) := by
  obtain ⟨hlt, rfl⟩ := List.getElem?_eq_some_iff.mp hk
  rw [← List.flatten_cons, List.getElem_cons_drop, ← List.flatten_append, List.take_append_drop]

/-- Fields that take room start one behind the other. -/
theorem offset_lt {values : List (List β)} (hpos : ∀ bytes ∈ values, 0 < bytes.length) {j k : Nat}
    (hjk : j < k) (hj : j < values.length) : offset values j < offset values k := by
  induction values generalizing j k with
  | nil => simp at hj
  | cons bytes values ih =>
    cases k with
    | zero => omega
    | succ k =>
      have hfirst := hpos bytes List.mem_cons_self
      cases j with
      | zero =>
        rw [offset_zero, offset_succ]
        omega
      | succ j =>
        have hrest := ih (fun b hb => hpos b (List.mem_cons_of_mem bytes hb))
          (show j < k by omega) (by simpa using hj)
        rw [offset_succ, offset_succ]
        omega

/-- The order of the fields is the order of the places where they start. -/
theorem offset_lt_iff {values : List (List β)} (hpos : ∀ bytes ∈ values, 0 < bytes.length)
    {j k : Nat} (hj : j < values.length) (hk : k < values.length) :
    offset values j < offset values k ↔ j < k := by
  constructor
  · intro hlt
    by_contra hge
    rcases Nat.lt_or_eq_of_le (Nat.le_of_not_lt hge) with h | rfl
    · exact absurd (offset_lt hpos h hk) (Nat.not_lt_of_lt hlt)
    · exact Nat.lt_irrefl _ hlt
  · exact fun hjk => offset_lt hpos hjk hj

variable {R : α → List β → Prop}

/-- Every choice of values is a record. -/
theorem exists_values {fields : List α} (h : ∀ p ∈ fields, ∃ bytes, R p bytes) :
    ∃ values, List.Forall₂ R fields values := by
  induction fields with
  | nil => exact ⟨[], .nil⟩
  | cons p fields ih =>
    obtain ⟨bytes, hbytes⟩ := h p List.mem_cons_self
    obtain ⟨values, hvalues⟩ := ih fun q hq => h q (List.mem_cons_of_mem p hq)
    exact ⟨bytes :: values, .cons hbytes hvalues⟩

/-- There is a record with a given value of one field. -/
theorem exists_values_at {fields : List α} (h : ∀ p ∈ fields, ∃ bytes, R p bytes) {k : Nat} {p : α}
    (hk : fields[k]? = some p) {bytes : List β} (hbytes : R p bytes) :
    ∃ values, List.Forall₂ R fields values ∧ values[k]? = some bytes := by
  induction fields generalizing k with
  | nil => cases hk
  | cons q fields ih =>
    have hrest : ∀ p ∈ fields, ∃ bytes, R p bytes := fun p hp => h p (List.mem_cons_of_mem q hp)
    cases k with
    | zero =>
      cases hk
      obtain ⟨values, hvalues⟩ := exists_values hrest
      exact ⟨bytes :: values, .cons hbytes hvalues, rfl⟩
    | succ k =>
      obtain ⟨first, hfirst⟩ := h q List.mem_cons_self
      obtain ⟨values, hvalues, hget⟩ := ih hrest hk
      exact ⟨first :: values, .cons hfirst hvalues, hget⟩

/-- A field starts at the same place in all records exactly if each field in front of it has values
of one length only. -/
theorem offset_eq_iff {fields : List α} (h : ∀ p ∈ fields, ∃ bytes, R p bytes) (k : Nat) :
    (∀ values values', List.Forall₂ R fields values → List.Forall₂ R fields values' →
      offset values k = offset values' k) ↔
    ∀ p ∈ fields.take k, ∀ bytes bytes', R p bytes → R p bytes' →
      bytes.length = bytes'.length := by
  induction fields generalizing k with
  | nil =>
    refine iff_of_true (fun values values' hv hv' => ?_) (by simp)
    rw [List.forall₂_nil_left_iff.mp hv, List.forall₂_nil_left_iff.mp hv']
  | cons q fields ih =>
    have hrest : ∀ p ∈ fields, ∃ bytes, R p bytes := fun p hp => h p (List.mem_cons_of_mem q hp)
    cases k with
    | zero => exact iff_of_true (fun _ _ _ _ => rfl) (by simp)
    | succ k =>
      rw [List.take_succ_cons, List.forall_mem_cons, ← ih hrest k]
      constructor
      · intro hall
        refine ⟨fun bytes bytes' hb hb' => ?_, fun values values' hv hv' => ?_⟩
        · -- The records differ in their first field only.
          obtain ⟨values, hv⟩ := exists_values hrest
          have hsame := hall _ _ (.cons hb hv) (.cons hb' hv)
          rw [offset_succ, offset_succ] at hsame
          omega
        · obtain ⟨bytes, hb⟩ := h q List.mem_cons_self
          have hsame := hall _ _ (.cons hb hv) (.cons hb hv')
          rw [offset_succ, offset_succ] at hsame
          omega
      · rintro ⟨hfirst, hall⟩ values values' hv hv'
        cases hv with
        | cons hb hv =>
          cases hv' with
          | cons hb' hv' =>
            rw [offset_succ, offset_succ, hfirst _ _ hb hb', hall _ _ hv hv']

end KernelEventsTrace.FieldLayout
