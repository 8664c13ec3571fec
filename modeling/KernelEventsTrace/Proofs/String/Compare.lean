import KernelEventsTrace.Proofs.String.Reachable

/-!
# `KernelEventsTrace.Proofs.String.Compare`: the comparisons of strings

All five comparisons run the same loop over a window of cells of each string
(`Buffer.compareFrom_eq`).
For `==`, `IsPrefixOf`, `HasPrefix` and `IsSuffixOf` both windows lie in the characters. Their
answer is right if both strings have an array, but a string without one is not even equal to
itself. `HasSuffix` takes its second window from the wrong string (`window`), where it may reach
past the characters, or past the array.

`comparesContent_iff`: the comparisons of two strings depend on their content only, if and only if
the one that may be contained is longer, or both have an array and `HasSuffix` is lucky.
-/

set_option autoImplicit false

namespace KernelEventsTrace.Driver.Std

open KernelEventsTrace (BufferFault Buffer)

variable {α : Type}

namespace StringObj

/-! ### Specification -/

/-- Both strings have an array. -/
def HaveArrays (a b : StringObj α) : Prop := a.elements ≠ .null ∧ b.elements ≠ .null

/-- Both have an array, in either order. -/
theorem haveArrays_comm {a b : StringObj α} : HaveArrays a b ↔ HaveArrays b a := and_comm

/-- Whether both have an array. -/
instance [DecidableEq α] (a b : StringObj α) : Decidable (HaveArrays a b) :=
  inferInstanceAs (Decidable (_ ∧ _))

/-- The cells of `a` that `b.HasSuffix(a)` compares with the first characters of `b`, as far as
they exist. -/
def window (a b : StringObj α) : List α :=
  (a.elements.cells.drop (b.size - a.size)).take a.size

/-- The cells that `b.HasSuffix(a)` looks at show whether `a` is a suffix of `b`: if it is, they are
the first characters of `b`, and if not, one of them is different. -/
structure WindowShows (a b : StringObj α) : Prop where
  suffix : a.content <:+ b.content → a.window b = b.content.take a.size
  only : a.window b <+: b.content.take a.size → a.content <:+ b.content

section
variable [DecidableEq α]

/-- The comparisons of `a` with `b` are those of their contents. -/
structure ComparesContent (a b : StringObj α) : Prop where
  equals : a.equals b = .ok (decide (a.content = b.content))
  isPrefixOf : a.isPrefixOf b = .ok (decide (a.content <+: b.content))
  hasPrefix : b.hasPrefix a = .ok (decide (a.content <+: b.content))
  isSuffixOf : a.isSuffixOf b = .ok (decide (a.content <:+ b.content))
  hasSuffix : b.hasSuffix a = .ok (decide (a.content <:+ b.content))

/-- The comparison of two windows, with the test for null pointers. -/
theorem compareArrays_of_le {s t : StringObj α} {off n : Nat} (hs : n ≤ s.elements.cells.length)
    (ht : off + n ≤ t.elements.cells.length) {R : Prop} [Decidable R]
    (hR : (t.elements.cells.drop off).take n = s.elements.cells.take n ↔ R) :
    compareArrays s.elements t.elements off n = .ok (decide (HaveArrays s t ∧ R)) := by
  unfold compareArrays
  by_cases hnull : s.elements = .null ∨ t.elements = .null
  · rw [if_pos hnull, decide_eq_false fun h => ?_]
    exact hnull.elim h.1.1 h.1.2
  · rw [if_neg hnull, Buffer.compareFrom_of_le hs ht]
    have harrays : HaveArrays s t := not_or.mp hnull
    simp only [hR, harrays, true_and]

/-! ### The comparisons -/

variable {pool : Pool} {s t : StringObj α}

omit [DecidableEq α] in
/-- The first cells are equal if one content is a prefix of the other. -/
theorem prefix_content_iff (hs : s.Stored pool) (hle : s.size ≤ t.size) :
    t.elements.cells.take s.size = s.elements.cells.take s.size ↔ s.content <+: t.content := by
  rw [List.prefix_iff_eq_take, hs.length_content]
  unfold content
  rw [List.take_take, Nat.min_eq_left hle]
  exact eq_comm

omit [DecidableEq α] in
/-- The last cells are equal if one content is a suffix of the other. -/
theorem suffix_content_iff (hs : s.Stored pool) (ht : t.Stored pool) (hle : s.size ≤ t.size) :
    (t.elements.cells.drop (t.size - s.size)).take s.size = s.elements.cells.take s.size ↔
      s.content <:+ t.content := by
  rw [List.suffix_iff_eq_drop, hs.length_content, ht.length_content]
  unfold content
  rw [List.drop_take, show t.size - (t.size - s.size) = s.size by omega]
  exact eq_comm

omit [DecidableEq α] in
/-- A longer string is no part of a shorter one. -/
theorem decide_not_part (hs : s.Stored pool) (ht : t.Stored pool) (hlt : t.size < s.size)
    {R : Prop} [Decidable R] (hR : R → s.content.length ≤ t.content.length) :
    decide R = false := by
  refine decide_eq_false fun h => ?_
  have hlen := hR h
  rw [hs.length_content, ht.length_content] at hlen
  omega

/-- `IsPrefixOf` compares the contents, if both strings have an array. -/
theorem isPrefixOf_eq (hs : s.Stored pool) (ht : t.Stored pool) :
    s.isPrefixOf t = .ok (decide (HaveArrays s t ∧ s.content <+: t.content)) := by
  have hcells := hs.size
  have hcells' := ht.size
  unfold isPrefixOf
  rcases Nat.lt_or_ge t.size s.size with hlt | hle
  · rw [if_pos hlt, decide_not_part hs ht hlt fun h => h.2.length_le]
  · rw [if_neg (Nat.not_lt.mpr hle)]
    exact compareArrays_of_le hcells (by omega) (prefix_content_iff hs hle)

/-- `HasPrefix` is `IsPrefixOf` the other way round. -/
theorem hasPrefix_eq (hs : s.Stored pool) (ht : t.Stored pool) :
    t.hasPrefix s = .ok (decide (HaveArrays t s ∧ s.content <+: t.content)) := by
  have hcells := hs.size
  have hcells' := ht.size
  unfold hasPrefix
  rcases Nat.lt_or_ge t.size s.size with hlt | hle
  · rw [if_pos hlt, decide_not_part hs ht hlt fun h => h.2.length_le]
  · rw [if_neg (Nat.not_lt.mpr hle)]
    exact compareArrays_of_le (by omega) (by omega) (eq_comm.trans (prefix_content_iff hs hle))

/-- `IsSuffixOf` compares the contents, if both strings have an array. -/
theorem isSuffixOf_eq (hs : s.Stored pool) (ht : t.Stored pool) :
    s.isSuffixOf t = .ok (decide (HaveArrays s t ∧ s.content <:+ t.content)) := by
  have hcells := hs.size
  have hcells' := ht.size
  unfold isSuffixOf
  rcases Nat.lt_or_ge t.size s.size with hlt | hle
  · rw [if_pos hlt, decide_not_part hs ht hlt fun h => h.2.length_le]
  · rw [if_neg (Nat.not_lt.mpr hle)]
    exact compareArrays_of_le hcells (by omega) (suffix_content_iff hs ht hle)

/-- `==` compares the contents, if both strings have an array. -/
theorem equals_eq (hs : s.Stored pool) (ht : t.Stored pool) :
    s.equals t = .ok (decide (HaveArrays s t ∧ s.content = t.content)) := by
  have hcells := hs.size
  have hcells' := ht.size
  unfold equals
  by_cases hsize : s.size = t.size
  · rw [if_neg (not_not_intro hsize)]
    refine compareArrays_of_le hcells (by omega) ?_
    unfold content
    rw [hsize]
    exact eq_comm
  · rw [if_pos hsize, decide_eq_false fun h => hsize ?_]
    rw [← hs.length_content, ← ht.length_content, h.2]

/-- `HasSuffix` on two arrays gives the right answer if its window shows it. -/
theorem hasSuffix_iff (ht : t.Stored pool) (hle : s.size ≤ t.size)
    (harrays : HaveArrays s t) :
    t.hasSuffix s = .ok (decide (s.content <:+ t.content)) ↔ WindowShows s t := by
  have hcells := ht.size
  have htake : t.content.take s.size = t.elements.cells.take s.size := by
    unfold content
    rw [List.take_take, Nat.min_eq_left hle]
  have hrun : t.hasSuffix s =
      if s.window t = t.content.take s.size then .ok true
      else if s.window t <+: t.content.take s.size then .error .outOfBounds
      else .ok false := by
    unfold hasSuffix compareArrays
    rw [if_neg (Nat.not_lt.mpr hle), if_neg (not_or.mpr (haveArrays_comm.mp harrays)),
      Buffer.compareFrom_eq _ _ _ (show 0 + s.size ≤ t.elements.cells.length by omega), htake]
    rfl
  rw [hrun]
  by_cases heq : s.window t = t.content.take s.size
  · -- All cells agree.
    rw [if_pos heq]
    constructor
    · intro h
      have hsuffix := of_decide_eq_true (Except.ok.inj h).symm
      exact ⟨fun _ => heq, fun _ => hsuffix⟩
    · intro h
      rw [decide_eq_true (h.only (heq ▸ List.prefix_refl _))]
  · rw [if_neg heq]
    by_cases hpre : s.window t <+: t.content.take s.size
    · -- The array ends before a difference.
      rw [if_pos hpre]
      constructor
      · intro h
        cases h
      · intro h
        exact absurd (h.suffix (h.only hpre)) heq
    · -- There is a difference.
      rw [if_neg hpre]
      constructor
      · intro h
        have hnot := of_decide_eq_false (Except.ok.inj h).symm
        exact ⟨fun hsuffix => absurd hsuffix hnot, fun h' => absurd h' hpre⟩
      · intro h
        rw [decide_eq_false fun hsuffix => heq (h.suffix hsuffix)]

/-- A longer string is not found. -/
theorem hasSuffix_of_lt (hs : s.Stored pool) (ht : t.Stored pool) (hlt : t.size < s.size) :
    t.hasSuffix s = .ok (decide (s.content <:+ t.content)) := by
  rw [decide_not_part hs ht hlt fun h => h.length_le]
  exact if_pos hlt

/-! ### Results -/

variable [inst : Inhabited α] {T : ElementType α inst}

/-- The comparisons of `a` with `b` depend on the contents only, if and only if `a` is longer, or
both have an array and the window of `HasSuffix` shows the right answer. -/
theorem comparesContent_iff {a b : StringObj α} (ha : a.Reachable T pool)
    (hb : b.Reachable T pool) :
    ComparesContent a b ↔ (a.size ≤ b.size → HaveArrays a b ∧ WindowShows a b) := by
  have hs := ha.stored
  have ht := hb.stored
  constructor
  · intro h hle
    have harrays : HaveArrays a b := by
      by_contra hnot
      -- Without an array one of them is empty, and then `a` is.
      have hempty : a.size = 0 := by
        by_cases hnull : a.elements = .null
        · exact hs.size_eq_zero hnull
        · have hzero := ht.size_eq_zero (not_not.mp fun hb' => hnot ⟨hnull, hb'⟩)
          omega
      have hnil : a.content = [] := by
        unfold content
        rw [hempty, List.take_zero]
      have hanswer := h.isPrefixOf
      rw [isPrefixOf_eq hs ht, decide_eq_false fun hp => hnot hp.1, hnil,
        decide_eq_true List.nil_prefix] at hanswer
      cases hanswer
    exact ⟨harrays, (hasSuffix_iff ht hle harrays).mp h.hasSuffix⟩
  · intro h
    have hle : ∀ {R : Prop}, (R → a.content.length ≤ b.content.length) → R → a.size ≤ b.size := by
      intro R hR hr
      rw [← hs.length_content, ← ht.length_content]
      exact hR hr
    have hdrop : ∀ (R : Prop) [Decidable R], (R → a.content.length ≤ b.content.length) →
        decide (HaveArrays a b ∧ R) = decide R ∧ decide (HaveArrays b a ∧ R) = decide R := by
      intro R _ hR
      exact ⟨decide_eq_decide.mpr (and_iff_right_of_imp fun hr => (h (hle hR hr)).1),
        decide_eq_decide.mpr
          (and_iff_right_of_imp fun hr => haveArrays_comm.mp (h (hle hR hr)).1)⟩
    refine ⟨?_, ?_, ?_, ?_, ?_⟩
    · rw [equals_eq hs ht, (hdrop _ fun heq => Nat.le_of_eq (congrArg List.length heq)).1]
    · rw [isPrefixOf_eq hs ht, (hdrop _ List.IsPrefix.length_le).1]
    · rw [hasPrefix_eq hs ht, (hdrop _ List.IsPrefix.length_le).2]
    · rw [isSuffixOf_eq hs ht, (hdrop _ List.IsSuffix.length_le).1]
    · rcases Nat.lt_or_ge b.size a.size with hlt | hge
      · exact hasSuffix_of_lt hs ht hlt
      · exact (hasSuffix_iff ht hge (h hge).1).mpr (h hge).2

end

/-- The strings `b` and `ab`, and two that were constructed without an argument. -/
def fewStrings : List (StringCall WChar) :=
  [.op (.constructCstr ⟨[98], by decide⟩), .op (.constructCstr ⟨[97, 98], by decide⟩),
    .op .construct, .op .construct]

/-- The four strings of the example. -/
theorem runCalls_fewStrings : runCalls .wchar ⟨64, by decide⟩ fewStrings =
    .ok [⟨1, .array [98, 0], 1⟩, ⟨2, .array [97, 98, 0], 2⟩, construct, construct] := rfl

/-- Two strings with the content `b`. Both have an array, and the cells that `HasSuffix` reads are
those of the content. -/
theorem comparesContent_same :
    ComparesContent (⟨1, .array [98, 0], 1⟩ : StringObj WChar) ⟨1, .array [98, 0], 1⟩ :=
  (comparesContent_iff (T := .wchar)
    ⟨_, _, runCalls_fewStrings, by simp⟩ ⟨_, _, runCalls_fewStrings, by simp⟩).mpr
    fun _ => ⟨⟨nofun, nofun⟩, ⟨fun _ => rfl, fun _ => List.suffix_refl _⟩⟩

/-- A string without an array is not equal to itself, and `ab` does not end with `b`. -/
theorem not_comparesContent :
    (∃ ss, runCalls .wchar ⟨64, by decide⟩ fewStrings = .ok ss ∧
      ⟨1, .array [98, 0], 1⟩ ∈ ss ∧ ⟨2, .array [97, 98, 0], 2⟩ ∈ ss ∧ construct ∈ ss) ∧
    ¬ ComparesContent (construct : StringObj WChar) construct ∧
    ¬ ComparesContent (⟨1, .array [98, 0], 1⟩ : StringObj WChar) ⟨2, .array [97, 98, 0], 2⟩ := by
  refine ⟨⟨_, runCalls_fewStrings, by simp, by simp, by simp⟩, fun h => ?_, fun h => ?_⟩
  · exact absurd h.equals (by decide)
  · exact absurd h.hasSuffix (by decide)

/-! ### The strings of the protection decisions -/

/-- The string by its content. -/
def toKString (s : StringObj α) : KString α :=
  match s.elements with
  | .null => .null
  | .array _ => .of s.content

/-- `IsPrefixOf` on the array is `IsPrefixOf` on the content. -/
theorem isPrefixOf_toKString [DecidableEq α] {pool : Pool} {s t : StringObj α}
    (hs : s.Stored pool) (ht : t.Stored pool) :
    s.isPrefixOf t = .ok (s.toKString.isPrefixOf t.toKString) := by
  have hiff : HaveArrays s t ∧ s.content <+: t.content ↔
      s.toKString.isPrefixOf t.toKString = true := by
    rw [KString.isPrefixOf_iff]
    unfold HaveArrays toKString
    cases s.elements <;> cases t.elements <;> simp
  rw [isPrefixOf_eq hs ht, Bool.eq_iff_iff.mpr (decide_eq_true_iff.trans hiff)]

end StringObj

end KernelEventsTrace.Driver.Std
