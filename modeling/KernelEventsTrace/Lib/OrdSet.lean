import KernelEventsTrace.Lib.OrdMap

/-!
# `KernelEventsTrace.Lib.OrdSet`: finite sets over a strict weak order, with cursors

An `FSet` is a finite set of classes of equivalent keys. It is given by its members in
increasing order, one key for each class, so the order is part of the type. A `Cursor` is a
place in the set: on a member, or behind the last one.

`at_split` is the rule behind all queries: a search for the first member with a property that
holds from some place on finds that place.
-/

set_option autoImplicit false

namespace KernelEventsTrace.OrdSet

open KernelEventsTrace.OrdMap

variable {K : Type}

/-- A finite set of keys, in increasing order. -/
@[ext] structure FSet (lt : K → K → Bool) where
  keys : List K
  sorted : keys.Pairwise fun a b => lt a b = true
  deriving DecidableEq

/-- A place in a set. A cursor on a member that left the set is `gone`. -/
inductive Cursor (K : Type) where
  | on (key : K)
  | atEnd
  | gone
  deriving Repr, DecidableEq

namespace Cursor

/-- The place in front of the rest of the keys. -/
def front : List K → Cursor K
  | [] => .atEnd
  | k :: _ => .on k

/-- The place that a search found. -/
def found : Option K → Cursor K
  | none => .atEnd
  | some k => .on k

/-- What becomes of a cursor when the key, or its equivalent, leaves the set. -/
def leave (lt : K → K → Bool) (key : K) : Cursor K → Cursor K
  | .on k => if OrdMap.Equiv lt key k then .gone else .on k
  | c => c

/-- What becomes of a cursor when all keys leave the set. -/
def leaveAll : Cursor K → Cursor K
  | .on _ => .gone
  | c => c

end Cursor

/-- A search for the first key with a property that holds from some place on. -/
theorem at_split {P : K → Bool} {pre post : List K} (hpre : ∀ k ∈ pre, P k = false)
    (hpost : ∀ k ∈ post, P k = true) : Cursor.found ((pre ++ post).find? P) = .front post := by
  have hnone : pre.find? P = none := List.find?_eq_none.mpr fun k hk => by simp [hpre k hk]
  rw [List.find?_append, hnone, Option.none_or]
  cases post with
  | nil => rfl
  | cons k post => simp [hpost k List.mem_cons_self, Cursor.found, Cursor.front]

section
variable (lt : K → K → Bool)

/-- Put a key in its place, unless it is there. -/
def insertKey (key : K) : List K → List K
  | [] => [key]
  | k :: ks =>
    if lt key k then key :: k :: ks
    else if lt k key then k :: insertKey key ks
    else k :: ks

end

section
variable {lt : K → K → Bool} {key : K}

/-- A key that is greater than the keys in front of a place and less than those behind it. -/
theorem insertKey_split [StrictWeak lt] {pre post : List K} (hpre : ∀ k ∈ pre, lt k key = true)
    (hpost : ∀ k ∈ post, lt key k = true) :
    insertKey lt key (pre ++ post) = pre ++ key :: post := by
  induction pre with
  | nil =>
    cases post with
    | nil => rfl
    | cons k post =>
      show insertKey lt key (k :: post) = key :: k :: post
      unfold insertKey
      rw [if_pos (hpost k List.mem_cons_self)]
  | cons k pre ih =>
    have hlt := hpre k List.mem_cons_self
    have hrest := ih fun a ha => hpre a (List.mem_cons_of_mem k ha)
    have hge : ¬ lt key k = true := by simp [lt_asymm hlt]
    show insertKey lt key (k :: (pre ++ post)) = _
    unfold insertKey
    rw [if_neg hge, if_pos hlt, hrest]
    rfl

/-- A key that is equivalent to the one at a place. -/
theorem insertKey_present [StrictWeak lt] {pre post : List K} {k : K}
    (hpre : ∀ a ∈ pre, lt a k = true) (heq : OrdMap.Equiv lt key k) :
    insertKey lt key (pre ++ k :: post) = pre ++ k :: post := by
  induction pre with
  | nil =>
    show insertKey lt key (k :: post) = k :: post
    unfold insertKey
    rw [if_neg (by simp [heq.1]), if_neg (by simp [heq.2])]
  | cons a pre ih =>
    have hlt : lt a key = true := by
      by_contra hn
      -- `a` would not be less than `key`, and so not less than `k`.
      have hle : lt a key = false := by simpa using hn
      have hak := hpre a List.mem_cons_self
      cases hka : lt key a with
      | true => exact not_equiv_of_lt (lt_trans hka hak) heq
      | false => exact not_equiv_of_lt hak (OrdMap.Equiv.trans ⟨hle, hka⟩ heq)
    have hrest := ih fun b hb => hpre b (List.mem_cons_of_mem a hb)
    show insertKey lt key (a :: (pre ++ k :: post)) = _
    unfold insertKey
    rw [if_neg (by simp [lt_asymm hlt]), if_pos hlt, hrest]
    rfl

/-- What is in the list afterwards was there, or is the new key. -/
theorem mem_insertKey {k : K} {l : List K} (h : k ∈ insertKey lt key l) : k = key ∨ k ∈ l := by
  induction l with
  | nil => exact Or.inl (List.mem_singleton.mp h)
  | cons a l ih =>
    unfold insertKey at h
    split at h
    · exact List.mem_cons.mp h
    · split at h
      · rcases List.mem_cons.mp h with rfl | h
        · exact Or.inr List.mem_cons_self
        · exact (ih h).imp_right (List.mem_cons_of_mem a)
      · exact Or.inr h

/-- The list stays in order. -/
theorem insertKey_sorted [StrictWeak lt] {l : List K} (h : l.Pairwise fun a b => lt a b = true) :
    (insertKey lt key l).Pairwise fun a b => lt a b = true := by
  induction l with
  | nil => exact List.pairwise_singleton _ _
  | cons a l ih =>
    have ⟨ha, hl⟩ := List.pairwise_cons.mp h
    unfold insertKey
    split
    · next hlt =>
      refine List.pairwise_cons.mpr ⟨fun b hb => ?_, h⟩
      rcases List.mem_cons.mp hb with rfl | hb
      · exact hlt
      · exact lt_trans hlt (ha b hb)
    · split
      · next hgt =>
        refine List.pairwise_cons.mpr ⟨fun b hb => ?_, ih hl⟩
        rcases mem_insertKey hb with rfl | hb
        · exact hgt
        · exact ha b hb
      · exact h

end

/-! ### The operations -/

namespace FSet

variable {lt : K → K → Bool}

/-- The empty set. -/
def empty : FSet lt := ⟨[], List.Pairwise.nil⟩

/-- Add a key. A key that is equivalent to a member is not added. -/
def insert [StrictWeak lt] (s : FSet lt) (key : K) : FSet lt :=
  ⟨insertKey lt key s.keys, insertKey_sorted s.sorted⟩

/-- Remove the member that is equivalent to the key. -/
def erase (s : FSet lt) (key : K) : FSet lt :=
  ⟨s.keys.filter fun k => !decide (OrdMap.Equiv lt key k), s.sorted.filter _⟩

/-- There is a member that is equivalent to the key. -/
def contains (s : FSet lt) (key : K) : Bool := s.keys.any fun k => decide (OrdMap.Equiv lt key k)

/-- The member that is equivalent to the key. -/
def find (s : FSet lt) (key : K) : Cursor K :=
  .found (s.keys.find? fun k => decide (OrdMap.Equiv lt key k))

/-- The first member that is not less than the key. -/
def lowerBound (s : FSet lt) (key : K) : Cursor K := .found (s.keys.find? fun k => !lt k key)

/-- The first member that is greater than the key. -/
def upperBound (s : FSet lt) (key : K) : Cursor K := .found (s.keys.find? fun k => lt key k)

/-- The first member. -/
def first (s : FSet lt) : Cursor K := .front s.keys

/-- The place behind a member. -/
def next (s : FSet lt) : Cursor K → Option (Cursor K)
  | .on k => some (s.upperBound k)
  | .atEnd => some .atEnd
  | .gone => none

/-- The place in front of a member, or in front of the end. -/
def prev (s : FSet lt) : Cursor K → Option (Cursor K)
  | .on k => some (.found (s.keys.reverse.find? fun a => lt a k))
  | .atEnd => some (.front s.keys.reverse)
  | .gone => none

/-! ### At a place of the sequence -/

section
variable [StrictWeak lt] {s : FSet lt} {pre post : List K} {k : K}

omit [StrictWeak lt] in
/-- What lies in front of a member is less, and what lies behind it is greater. -/
theorem split_lt (h : s.keys = pre ++ k :: post) :
    (∀ a ∈ pre, lt a k = true) ∧ ∀ a ∈ post, lt k a = true := by
  have hs := s.sorted
  rw [h] at hs
  obtain ⟨-, hright, hcross⟩ := List.pairwise_append.mp hs
  exact ⟨fun a ha => hcross a ha k List.mem_cons_self, (List.pairwise_cons.mp hright).1⟩

/-- The next position is in front of the keys behind. -/
theorem next_split (h : s.keys = pre ++ k :: post) : s.next (.on k) = some (.front post) := by
  have ⟨hpre, hpost⟩ := split_lt h
  have hsplit : s.keys = (pre ++ [k]) ++ post := by simp [h]
  show some (s.upperBound k) = _
  unfold upperBound
  rw [hsplit, at_split _ hpost]
  intro a ha
  rcases List.mem_append.mp ha with ha | ha
  · exact lt_asymm (hpre a ha)
  · rw [List.mem_singleton.mp ha]
    exact lt_irrefl k

/-- The position before is at the last key in front. -/
theorem prev_split (h : s.keys = pre ++ k :: post) :
    s.prev (.on k) = some (.front pre.reverse) := by
  have ⟨hpre, hpost⟩ := split_lt h
  have hsplit : s.keys.reverse = (post.reverse ++ [k]) ++ pre.reverse := by simp [h]
  show some (Cursor.found (s.keys.reverse.find? fun a => lt a k)) = _
  rw [hsplit, at_split _ fun a ha => hpre a (List.mem_reverse.mp ha)]
  intro a ha
  rcases List.mem_append.mp ha with ha | ha
  · exact lt_asymm (hpost a (List.mem_reverse.mp ha))
  · rw [List.mem_singleton.mp ha]
    exact lt_irrefl k

/-- The neighbours of the member that a key is equivalent to are not equivalent to it. -/
theorem split_not_equiv {key : K} (h : s.keys = pre ++ k :: post)
    (heq : OrdMap.Equiv lt key k) : ∀ a, a ∈ pre ∨ a ∈ post → ¬ OrdMap.Equiv lt key a := by
  have ⟨hpre, hpost⟩ := split_lt h
  intro a ha hka
  have hak : OrdMap.Equiv lt a k := hka.symm.trans heq
  rcases ha with ha | ha
  · exact not_equiv_of_lt (hpre a ha) hak
  · exact not_equiv_of_lt (hpost a ha) hak.symm

/-- The position of a key that is there. -/
theorem find_split {key : K} (h : s.keys = pre ++ k :: post) (heq : OrdMap.Equiv lt key k) :
    s.find key = .on k := by
  have hne := split_not_equiv h heq
  have hnone : pre.find? (fun a => decide (OrdMap.Equiv lt key a)) = none :=
    List.find?_eq_none.mpr fun a ha => by simpa using hne a (Or.inl ha)
  unfold find
  rw [h, List.find?_append, hnone, Option.none_or, List.find?_cons_of_pos (by simpa using heq)]
  rfl

omit [StrictWeak lt] in
/-- A key that is there is contained. -/
theorem contains_split {key : K} (h : s.keys = pre ++ k :: post)
    (heq : OrdMap.Equiv lt key k) : s.contains key = true := by
  unfold contains
  rw [h, List.any_append, List.any_cons]
  simp [heq]

/-- A key that is there is not inserted again. -/
theorem insert_present {key : K} (h : s.keys = pre ++ k :: post)
    (heq : OrdMap.Equiv lt key k) : s.insert key = s := by
  apply FSet.ext
  show insertKey lt key s.keys = s.keys
  rw [h, insertKey_present (split_lt h).1 heq]

/-- A key that is there is taken out of its place. -/
theorem erase_split {key : K} (h : s.keys = pre ++ k :: post) (heq : OrdMap.Equiv lt key k) :
    (s.erase key).keys = pre ++ post := by
  have hne := split_not_equiv h heq
  have hpre : pre.filter (fun a => !decide (OrdMap.Equiv lt key a)) = pre :=
    List.filter_eq_self.mpr fun a ha => by simpa using hne a (Or.inl ha)
  have hpost : post.filter (fun a => !decide (OrdMap.Equiv lt key a)) = post :=
    List.filter_eq_self.mpr fun a ha => by simpa using hne a (Or.inr ha)
  show s.keys.filter (fun a => !decide (OrdMap.Equiv lt key a)) = _
  rw [h, List.filter_append, List.filter_cons_of_neg (by simpa using heq), hpre, hpost]

end

section
variable {s : FSet lt} {key : K} (h : ∀ k ∈ s.keys, ¬ OrdMap.Equiv lt key k)

include h

/-- A key that is not there has no position. -/
theorem find_absent : s.find key = .atEnd := by
  unfold find
  rw [List.find?_eq_none.mpr fun k hk => by simpa using h k hk]
  rfl

/-- A key that is not there is not contained. -/
theorem contains_absent : s.contains key = false :=
  List.any_eq_false.mpr fun k hk => by simpa using h k hk

/-- Nothing is erased for a key that is not there. -/
theorem erase_absent : s.erase key = s := by
  apply FSet.ext
  exact List.filter_eq_self.mpr fun k hk => by simpa using h k hk

end

end FSet

/-- Two cursors that may be used are at the same place or not. -/
def Cursor.same (lt : K → K → Bool) : Cursor K → Cursor K → Option Bool
  | .on a, .on b => some (decide (OrdMap.Equiv lt a b))
  | .on _, .atEnd => some false
  | .atEnd, .on _ => some false
  | .atEnd, .atEnd => some true
  | _, _ => none

end KernelEventsTrace.OrdSet
