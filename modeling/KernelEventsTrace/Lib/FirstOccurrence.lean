import Mathlib.Data.Finset.Filter
import Mathlib.Data.Finset.Insert
import Mathlib.Data.List.Dedup
import Mathlib.Data.Finset.Dedup
import Mathlib.Data.List.Induction

/-!
# `KernelEventsTrace.Lib.FirstOccurrence`: the first item of a list with a given key

A program goes through a list of items and looks at the first one with each key only. `first key l
k` is that item. `firstWith key P l` is the set of keys whose first item satisfies `P`, and
`someWith key P l` the set of keys for which some item does.

`firstWith_snoc` says what one more item adds to the first set. It adds nothing if its key has
occurred before. The two sets are the same if and only if no item with `P` comes behind another one
with its key (`firstWith_eq_someWith_iff`).
-/

set_option autoImplicit false

namespace KernelEventsTrace.FirstOccurrence

variable {ι κ : Type} [DecidableEq κ] (key : ι → κ) (P : ι → Bool)

/-- The first item with the key. -/
def first (l : List ι) (k : κ) : Option ι := l.find? fun x => key x = k

/-- The keys whose first item satisfies `P`. -/
def firstWith (l : List ι) : Finset κ :=
  (l.map key).toFinset.filter fun k => (first key l k).any P

/-- The keys of the items that satisfy `P`. -/
def someWith (l : List ι) : Finset κ := ((l.filter P).map key).toFinset

variable {key P} {l : List ι} {x : ι} {k : κ}

/-- One more element. -/
theorem first_snoc : first key (l ++ [x]) k =
    (first key l k).or (if key x = k then some x else none) := by
  unfold first
  rw [List.find?_append, List.find?_singleton]
  simp

/-- The first item is one of the list, with this key. -/
theorem first_spec (h : first key l k = some x) : x ∈ l ∧ key x = k :=
  ⟨List.mem_of_find?_eq_some h, by simpa using List.find?_some h⟩

/-- The keys whose first element has the property. -/
theorem mem_firstWith_iff : k ∈ firstWith key P l ↔ ∃ x, first key l k = some x ∧ P x = true := by
  unfold firstWith
  rw [Finset.mem_filter, Option.any_eq_true]
  constructor
  · exact fun h => h.2
  · rintro ⟨x, hx, hP⟩
    obtain ⟨hmem, hkey⟩ := first_spec hx
    exact ⟨List.mem_toFinset.mpr (hkey ▸ List.mem_map_of_mem hmem), x, hx, hP⟩

/-- The keys of which some element has the property. -/
theorem mem_someWith_iff : k ∈ someWith key P l ↔ ∃ x ∈ l, P x = true ∧ key x = k := by
  simp [someWith, and_assoc]

/-- One more item adds its key if it satisfies `P` and is the first one with this key. -/
theorem firstWith_snoc : firstWith key P (l ++ [x]) =
    if first key l (key x) = none ∧ P x = true then insert (key x) (firstWith key P l)
    else firstWith key P l := by
  ext k
  rw [mem_firstWith_iff, first_snoc]
  by_cases hnew : first key l (key x) = none ∧ P x = true
  · rw [if_pos hnew, Finset.mem_insert, mem_firstWith_iff]
    by_cases hk : k = key x
    · subst hk
      simp [hnew]
    · simp [hk, Ne.symm hk]
  · rw [if_neg hnew, mem_firstWith_iff]
    by_cases hk : key x = k
    · subst hk
      cases hfirst : first key l (key x) with
      | none => simp [hfirst] at hnew; simp [hnew]
      | some y => simp
    · simp [hk]

/-- The first element is one of them. -/
theorem firstWith_subset : firstWith key P l ⊆ someWith key P l := by
  intro k hk
  obtain ⟨x, hx, hP⟩ := mem_firstWith_iff.mp hk
  obtain ⟨hmem, hkey⟩ := first_spec hx
  exact mem_someWith_iff.mpr ⟨x, hmem, hP, hkey⟩

/-- The sets agree if every item with `P` has a key whose first item satisfies `P`. -/
theorem firstWith_eq_someWith_iff : firstWith key P l = someWith key P l ↔
    ∀ k ∈ someWith key P l, ∃ x, first key l k = some x ∧ P x = true := by
  constructor
  · intro h k hk
    exact mem_firstWith_iff.mp (h ▸ hk)
  · intro h
    exact Finset.Subset.antisymm firstWith_subset fun k hk => mem_firstWith_iff.mpr (h k hk)

/-- The second set does not depend on the order of the items. -/
theorem someWith_congr {l l' : List ι} (h : (l.filter P).Perm (l'.filter P)) :
    someWith key P l = someWith key P l' :=
  List.toFinset_eq_of_perm _ _ (h.map key)

end KernelEventsTrace.FirstOccurrence
