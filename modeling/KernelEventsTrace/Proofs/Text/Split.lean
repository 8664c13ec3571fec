import Mathlib.Tactic.ByContra
import KernelEventsTrace.EtwService.WString

/-!
# `KernelEventsTrace.Proofs.Text.Split`: where a wide string is split

`find` gives the first position of a substring, and `findChar` that of a character, from some
position on. `upTo` takes what stands before it. `upTo_findChar` says this for a string that is
given by its parts.
-/

set_option autoImplicit false

namespace KernelEventsTrace.EtwService.WString

variable {s sub a rest : WString} {c : UInt16} {pos : Nat}

/-! ### Substrings -/

/-- The text does not begin so. -/
theorem isPrefixOf_eq_false_iff : sub.isPrefixOf s = false ↔ ¬ sub <+: s := by
  rw [← List.isPrefixOf_iff_prefix, Bool.not_eq_true]

/-- No part is found if it begins nowhere. -/
theorem find_eq_none_iff : s.find sub = none ↔ ∀ i ≤ s.length, ¬ sub <+: s.drop i := by
  unfold find
  rw [List.find?_range_eq_none]
  constructor
  · intro h i hi
    simpa [isPrefixOf_eq_false_iff] using h i (Nat.lt_succ_of_le hi)
  · intro h i hi
    simpa [isPrefixOf_eq_false_iff] using h i (Nat.le_of_lt_succ hi)

/-- The first place where a part begins. -/
theorem find_eq_some_iff {n : Nat} : s.find sub = some n ↔
    n ≤ s.length ∧ sub <+: s.drop n ∧ ∀ i < n, ¬ sub <+: s.drop i := by
  unfold find
  rw [List.find?_range_eq_some, List.mem_range]
  constructor
  · intro ⟨hn, hlen, hfirst⟩
    exact ⟨Nat.le_of_lt_succ hlen, by simpa using hn, fun i hi => by
      simpa [isPrefixOf_eq_false_iff] using hfirst i hi⟩
  · intro ⟨hlen, hn, hfirst⟩
    exact ⟨by simpa using hn, Nat.lt_succ_of_le hlen, fun i hi => by
      simpa [isPrefixOf_eq_false_iff] using hfirst i hi⟩

/-- What stands around the first occurrence. -/
theorem eq_of_find {n : Nat} (h : s.find sub = some n) :
    ∃ front back, s = front ++ sub ++ back ∧ front.length = n ∧ ∀ i < n, ¬ sub <+: s.drop i := by
  obtain ⟨hlen, ⟨back, hback⟩, hfirst⟩ := find_eq_some_iff.mp h
  refine ⟨s.take n, back, ?_, List.length_take_of_le hlen, hfirst⟩
  rw [List.append_assoc, hback, List.take_append_drop]

/-- A part is contained if it stands somewhere in the text. -/
theorem contains_iff : s.contains sub = true ↔ sub <:+: s := by
  unfold contains
  rw [Option.isSome_iff_ne_none, ne_eq, find_eq_none_iff]
  constructor
  · intro h
    by_contra hno
    refine h fun i _ hpre => hno ?_
    exact hpre.isInfix.trans (List.drop_suffix i s).isInfix
  · rintro ⟨front, back, rfl⟩ h
    refine h front.length (by simp) ?_
    rw [List.append_assoc, List.drop_left]
    exact List.prefix_append _ _

/-! ### Characters -/

/-- No character is found from the position on. -/
theorem findChar_eq_none_iff : s.findChar c pos = none ↔ ∀ i, pos ≤ i → s[i]? ≠ some c := by
  unfold findChar
  rw [List.find?_range_eq_none]
  constructor
  · intro h i hpos hi
    have hlen : i < s.length := (List.getElem?_eq_some_iff.mp hi).1
    simpa [hpos, hi] using h i hlen
  · intro h i _
    simpa [or_iff_not_imp_left] using h i

/-- The first place of a character from the position on. -/
theorem findChar_eq_some_iff {n : Nat} : s.findChar c pos = some n ↔
    pos ≤ n ∧ s[n]? = some c ∧ ∀ i < n, pos ≤ i → s[i]? ≠ some c := by
  unfold findChar
  rw [List.find?_range_eq_some]
  constructor
  · rintro ⟨hn, -, hfirst⟩
    have hn' : pos ≤ n ∧ s[n]? = some c := by simpa using hn
    exact ⟨hn'.1, hn'.2, fun i hi hpos => by simpa [hpos] using hfirst i hi⟩
  · rintro ⟨hpos, hn, hfirst⟩
    have hlen : n < s.length := (List.getElem?_eq_some_iff.mp hn).1
    exact ⟨by simp [hpos, hn], List.mem_range.mpr hlen, fun i hi => by
      simpa [or_iff_not_imp_left] using hfirst i hi⟩

/-- The character does not stand in `a` from `pos` on, and it is the next one. -/
theorem findChar_append (hpos : pos ≤ a.length) (ha : ∀ i, pos ≤ i → a[i]? ≠ some c) :
    WString.findChar (a ++ c :: rest) c pos = some a.length := by
  rw [findChar_eq_some_iff]
  refine ⟨hpos, by simp, fun i hi hle => ?_⟩
  rw [List.getElem?_append_left hi]
  exact ha i hle

/-- What stands before the character, or the whole string. -/
theorem upTo_findChar (hpos : pos ≤ a.length) (ha : ∀ i, pos ≤ i → a[i]? ≠ some c)
    (hrest : rest = [] ∨ rest.head? = some c) :
    WString.upTo (a ++ rest) (WString.findChar (a ++ rest) c pos) = a := by
  cases rest with
  | nil =>
    rw [List.append_nil, findChar_eq_none_iff.mpr ha]
    rfl
  | cons d rest =>
    obtain rfl : d = c := by simpa using hrest
    rw [findChar_append hpos ha]
    show (a ++ d :: rest).take a.length = a
    exact List.take_left

/-- The search can start behind the first part of a string. -/
theorem findChar_append_length : WString.findChar (a ++ s) c a.length =
    (s.findChar c 0).map fun n => a.length + n := by
  have hget : ∀ i, (a ++ s)[a.length + i]? = s[i]? := by
    intro i
    rw [List.getElem?_append_right (Nat.le_add_right _ _), Nat.add_sub_cancel_left]
  cases h : s.findChar c 0 with
  | none =>
    refine findChar_eq_none_iff.mpr fun i hi => ?_
    obtain ⟨k, rfl⟩ := Nat.exists_eq_add_of_le hi
    rw [hget]
    exact findChar_eq_none_iff.mp h k (Nat.zero_le k)
  | some n =>
    obtain ⟨-, hn, hfirst⟩ := findChar_eq_some_iff.mp h
    refine findChar_eq_some_iff.mpr ⟨Nat.le_add_right _ _, (hget n).trans hn, fun i hi hle => ?_⟩
    obtain ⟨k, rfl⟩ := Nat.exists_eq_add_of_le hle
    rw [hget]
    exact hfirst k (Nat.lt_of_add_lt_add_left hi) (Nat.zero_le k)

/-- What stands around the first occurrence of a character. -/
theorem eq_of_findChar {n : Nat} (h : s.findChar c 0 = some n) :
    ∃ front back, s = front ++ c :: back ∧ front.length = n ∧ c ∉ front := by
  obtain ⟨-, hn, hfirst⟩ := findChar_eq_some_iff.mp h
  have hmem : c ∈ s := List.mem_of_getElem? hn
  obtain ⟨front, back, rfl, hfront⟩ := List.eq_append_cons_of_mem hmem
  refine ⟨front, back, rfl, ?_, hfront⟩
  have hsome : WString.findChar (front ++ c :: back) c 0 = some front.length :=
    findChar_append (Nat.zero_le _) fun i _ hi => hfront (List.mem_of_getElem? hi)
  exact Option.some.inj (hsome.symm.trans h)

/-- A character that is not in the text stands nowhere. -/
theorem getElem?_ne_of_notMem (h : c ∉ s) (i : Nat) : s[i]? ≠ some c := fun hi =>
  h (List.mem_of_getElem? hi)

end KernelEventsTrace.EtwService.WString
