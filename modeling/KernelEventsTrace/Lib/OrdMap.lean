import Mathlib.Data.Set.Finite.Basic
import Mathlib.Data.Set.Card
import Mathlib.Order.Defs.Unbundled

/-!
# `KernelEventsTrace.Lib.OrdMap`: finite maps over the classes of equivalent keys

A comparison that is a strict weak order makes two keys equivalent when neither is less
than the other. `FMap lt V` is the finite map from these classes to entries. An entry is
the key that was stored and its value, and its key is in its own class.

`Holds l F` says that the list `l` has exactly the entries of `F`. Its lemmas (`Holds.find`,
`Holds.insert`, `Holds.set`, `Holds.erase`, `Holds.size`) carry an operation on a list of
entries, known by its members only, to the operation on the map.
-/

set_option autoImplicit false

namespace KernelEventsTrace.OrdMap

variable {K V : Type}

/-- The comparison is a strict weak order. -/
abbrev StrictWeak (lt : K → K → Bool) : Prop := IsStrictWeakOrder K fun a b => lt a b = true

/-- Two keys are equivalent when neither is less than the other. -/
def Equiv (lt : K → K → Bool) (a b : K) : Prop := lt a b = false ∧ lt b a = false

/-- Equivalence is decided by two comparisons. -/
instance (lt : K → K → Bool) (a b : K) : Decidable (Equiv lt a b) :=
  inferInstanceAs (Decidable (_ ∧ _))

/-- The order of a linear order is a strict weak order. -/
instance {α : Type} [LinearOrder α] : StrictWeak fun a b : α => decide (a < b) where
  irrefl a := by simp
  trans a b c := by
    simp only [decide_eq_true_eq]
    exact fun h h' => h.trans h'
  incomp_trans a b c := by
    simp only [decide_eq_true_eq, not_lt]
    intro h h'
    exact ⟨h'.1.trans h.1, h.2.trans h'.2⟩

section
variable {lt : K → K → Bool} [StrictWeak lt]

/-- No key is less than itself. -/
theorem lt_irrefl (a : K) : lt a a = false := by
  have := Std.Irrefl.irrefl (r := fun a b => lt a b = true) a
  simpa using this

/-- The order is transitive. -/
theorem lt_trans {a b c : K} (h : lt a b = true) (h' : lt b c = true) : lt a c = true :=
  IsTrans.trans (r := fun a b => lt a b = true) a b c h h'

/-- Only one of two keys is less. -/
theorem lt_asymm {a b : K} (h : lt a b = true) : lt b a = false := by
  have := Std.Asymm.asymm (r := fun a b => lt a b = true) a b h
  simpa using this

/-- A key is equivalent to itself. -/
theorem Equiv.refl (a : K) : Equiv lt a a := ⟨lt_irrefl a, lt_irrefl a⟩

omit [StrictWeak lt] in
/-- Equivalence does not depend on the order of the keys. -/
theorem Equiv.symm {a b : K} (h : Equiv lt a b) : Equiv lt b a := ⟨h.2, h.1⟩

/-- Keys that are equivalent to one key are so to each other. -/
theorem Equiv.trans {a b c : K} (h : Equiv lt a b) (h' : Equiv lt b c) : Equiv lt a c := by
  have hincomp : ∀ a b c : K, ¬ lt a b = true ∧ ¬ lt b a = true →
      ¬ lt b c = true ∧ ¬ lt c b = true → ¬ lt a c = true ∧ ¬ lt c a = true :=
    IsStrictWeakOrder.incomp_trans
  have := hincomp a b c ⟨by simp [h.1], by simp [h.2]⟩ ⟨by simp [h'.1], by simp [h'.2]⟩
  exact ⟨by simpa using this.1, by simpa using this.2⟩

omit [StrictWeak lt] in
/-- A key that is less is not equivalent. -/
theorem not_equiv_of_lt {a b : K} (h : lt a b = true) : ¬ Equiv lt a b := by
  intro heq
  rw [heq.1] at h
  cases h

end

section
variable (lt : K → K → Bool) [StrictWeak lt]

/-- Equivalence of keys. -/
def keySetoid : Setoid K := ⟨Equiv lt, Equiv.refl, Equiv.symm, Equiv.trans⟩

/-- A class of equivalent keys. -/
def KeyClass : Type := Quotient (keySetoid lt)

/-- The class of a key. -/
def KeyClass.mk (k : K) : KeyClass lt := Quotient.mk (keySetoid lt) k

/-- Two keys have the same class if they are equivalent. -/
theorem KeyClass.mk_eq_iff {a b : K} : KeyClass.mk lt a = KeyClass.mk lt b ↔ Equiv lt a b :=
  Quotient.eq (r := keySetoid lt)

/-- A finite map from classes of equivalent keys to entries. -/
@[ext] structure FMap (V : Type) where
  get : KeyClass lt → Option (K × V)
  finite : {c | (get c).isSome}.Finite
  key_mem : ∀ c e, get c = some e → KeyClass.mk lt e.1 = c

end

namespace FMap

variable {lt : K → K → Bool} [StrictWeak lt]

open Classical in
/-- The map with another answer at one class. -/
noncomputable def update (F : FMap lt V) (k : K) (e : Option (K × V))
    (h : ∀ x, e = some x → Equiv lt x.1 k) : FMap lt V where
  get c := if c = KeyClass.mk lt k then e else F.get c
  finite := by
    refine (F.finite.union (Set.finite_singleton (KeyClass.mk lt k))).subset ?_
    intro c hc
    by_cases heq : c = KeyClass.mk lt k
    · exact Or.inr heq
    · left
      simpa [heq] using hc
  key_mem := by
    intro c x hx
    by_cases heq : c = KeyClass.mk lt k
    · rw [if_pos heq] at hx
      rw [heq, KeyClass.mk_eq_iff]
      exact h x hx
    · rw [if_neg heq] at hx
      exact F.key_mem c x hx

/-- The entry of the key that was updated. -/
theorem get_update_self {F : FMap lt V} {k : K} {e : Option (K × V)} {c : KeyClass lt}
    (h : ∀ x, e = some x → Equiv lt x.1 k) (hc : c = KeyClass.mk lt k) :
    (F.update k e h).get c = e := if_pos hc

/-- The entries of other keys. -/
theorem get_update_of_ne {F : FMap lt V} {k : K} {e : Option (K × V)} {c : KeyClass lt}
    (h : ∀ x, e = some x → Equiv lt x.1 k) (hc : c ≠ KeyClass.mk lt k) :
    (F.update k e h).get c = F.get c := if_neg hc

/-- The empty map. -/
def empty : FMap lt V := ⟨fun _ => none, by simp, fun _ _ h => by cases h⟩

/-- The entry of a key. -/
def find (F : FMap lt V) (k : K) : Option (K × V) := F.get (KeyClass.mk lt k)

/-- A new entry, unless the key has one. -/
noncomputable def insert (F : FMap lt V) (k : K) (v : V) : FMap lt V :=
  match F.find k with
  | some _ => F
  | none => F.update k (some (k, v)) fun _ h => Option.some.inj h ▸ Equiv.refl k

/-- Another value in the entry of a key. The stored key stays. -/
noncomputable def set (F : FMap lt V) (k : K) (v : V) : FMap lt V :=
  match h : F.find k with
  | some e => F.update k (some (e.1, v)) fun _ hx =>
      Option.some.inj hx ▸ (KeyClass.mk_eq_iff lt).mp (F.key_mem _ e h)
  | none => F

/-- No entry for a key. -/
noncomputable def erase (F : FMap lt V) (k : K) : FMap lt V :=
  F.update k none fun _ h => by cases h

/-- The number of entries. -/
noncomputable def size (F : FMap lt V) : Nat := Set.ncard {c | (F.get c).isSome}

/-- The first entry in the order of the keys, or none if there is no entry. -/
def IsFirst (F : FMap lt V) : Option (K × V) → Prop
  | none => ∀ k, F.find k = none
  | some e => F.find e.1 = some e ∧ ∀ k x, F.find k = some x → lt x.1 e.1 = false

/-- Nothing is erased from the empty map. -/
theorem erase_empty (k : K) : (empty : FMap lt V).erase k = empty := by
  apply FMap.ext
  funext c
  by_cases hc : c = KeyClass.mk lt k
  · exact get_update_self _ hc
  · exact get_update_of_ne _ hc

end FMap

/-- The list has exactly the entries of the map. -/
def Holds {lt : K → K → Bool} [StrictWeak lt] (l : List (K × V)) (F : FMap lt V) : Prop :=
  ∀ c e, F.get c = some e ↔ e ∈ l ∧ KeyClass.mk lt e.1 = c

namespace Holds

variable {lt : K → K → Bool} [StrictWeak lt] {l l' : List (K × V)} {F : FMap lt V}

/-- The empty list holds the empty map. -/
theorem nil : Holds ([] : List (K × V)) (FMap.empty : FMap lt V) := by
  intro c e
  simp [FMap.empty]

/-- Only the empty map has the entries of the empty list. -/
theorem eq_empty (h : Holds ([] : List (K × V)) F) : F = FMap.empty := by
  apply FMap.ext
  funext c
  cases hget : F.get c with
  | none => rfl
  | some e => exact absurd ((h c e).mp hget).1 List.not_mem_nil

/-- An entry is found under every key of its class. -/
theorem find (h : Holds l F) {e : K × V} {k : K} (he : e ∈ l) (hk : Equiv lt k e.1) :
    F.find k = some e :=
  (h _ _).mpr ⟨he, (KeyClass.mk_eq_iff lt).mpr hk.symm⟩

/-- Without an entry in its class nothing is found under a key. -/
theorem find_none (h : Holds l F) {k : K} (hk : ∀ e ∈ l, ¬ Equiv lt k e.1) :
    F.find k = none := by
  cases hf : F.find k with
  | none => rfl
  | some e =>
    obtain ⟨he, hc⟩ := (h _ _).mp hf
    exact absurd ((KeyClass.mk_eq_iff lt).mp hc).symm (hk e he)

/-- A new entry in a list without its class. -/
theorem insert (h : Holds l F) {k : K} {v : V} (hk : ∀ e ∈ l, ¬ Equiv lt k e.1)
    (hl : ∀ e, e ∈ l' ↔ e = (k, v) ∨ e ∈ l) : Holds l' (F.insert k v) := by
  intro c e
  unfold FMap.insert
  rw [h.find_none hk, hl]
  by_cases hc : c = KeyClass.mk lt k
  · rw [FMap.get_update_self _ hc]
    constructor
    · intro he
      cases he
      exact ⟨Or.inl rfl, hc.symm⟩
    · rintro ⟨rfl | he, hcl⟩
      · rfl
      · rw [hc, KeyClass.mk_eq_iff] at hcl
        exact absurd hcl.symm (hk e he)
  · rw [FMap.get_update_of_ne _ hc, h c e]
    constructor
    · intro he
      exact ⟨Or.inr he.1, he.2⟩
    · rintro ⟨rfl | he, hcl⟩
      · exact absurd hcl.symm hc
      · exact ⟨he, hcl⟩

/-- Nothing happens when the class has an entry. -/
theorem insert_of_mem (h : Holds l F) {e : K × V} {k : K} {v : V} (he : e ∈ l)
    (hk : Equiv lt k e.1) : F.insert k v = F := by
  unfold FMap.insert
  rw [h.find he hk]

/-- A list with at most one entry for each class is a finite map. -/
theorem exists_of_pairwise (hl : l.Pairwise fun a b => ¬ Equiv lt a.1 b.1) :
    ∃ F : FMap lt V, Holds l F := by
  induction l with
  | nil => exact ⟨FMap.empty, nil⟩
  | cons e l ih =>
    obtain ⟨hne, hl⟩ := List.pairwise_cons.mp hl
    obtain ⟨F, hF⟩ := ih hl
    exact ⟨F.insert e.1 e.2, hF.insert hne fun x => List.mem_cons⟩

/-- Another value in the entry of a class. -/
theorem set (h : Holds l F) {e : K × V} {k : K} {v : V} (he : e ∈ l) (hk : Equiv lt k e.1)
    (hl : ∀ x, x ∈ l' ↔ x = (e.1, v) ∨ (x ∈ l ∧ ¬ Equiv lt k x.1)) : Holds l' (F.set k v) := by
  have hF := h.find he hk
  intro c x
  unfold FMap.set
  split
  · rename_i e' he'
    obtain rfl : e = e' := Option.some.inj (hF.symm.trans he')
    rw [hl]
    by_cases hc : c = KeyClass.mk lt k
    · rw [FMap.get_update_self _ hc]
      constructor
      · intro hx
        cases hx
        exact ⟨Or.inl rfl, hc ▸ (KeyClass.mk_eq_iff lt).mpr hk.symm⟩
      · rintro ⟨rfl | hx, hcl⟩
        · rfl
        · rw [hc, KeyClass.mk_eq_iff] at hcl
          exact absurd hcl.symm hx.2
    · rw [FMap.get_update_of_ne _ hc, h c x]
      constructor
      · intro hx
        refine ⟨Or.inr ⟨hx.1, fun heq => hc ?_⟩, hx.2⟩
        rw [← hx.2]
        exact (KeyClass.mk_eq_iff lt).mpr heq.symm
      · rintro ⟨rfl | hx, hcl⟩
        · exact absurd (hcl.symm.trans ((KeyClass.mk_eq_iff lt).mpr hk.symm)) hc
        · exact ⟨hx.1, hcl⟩
  · rename_i hnone
    rw [hF] at hnone
    cases hnone

/-- The list without a class. -/
theorem erase (h : Holds l F) {k : K} (hl : ∀ x, x ∈ l' ↔ x ∈ l ∧ ¬ Equiv lt k x.1) :
    Holds l' (F.erase k) := by
  intro c x
  unfold FMap.erase
  rw [hl]
  by_cases hc : c = KeyClass.mk lt k
  · rw [FMap.get_update_self _ hc]
    constructor
    · intro hx
      cases hx
    · rintro ⟨⟨-, hne⟩, hcl⟩
      rw [hc, KeyClass.mk_eq_iff] at hcl
      exact absurd hcl.symm hne
  · rw [FMap.get_update_of_ne _ hc, h c x]
    constructor
    · intro hx
      refine ⟨⟨hx.1, fun heq => hc ?_⟩, hx.2⟩
      rw [← hx.2]
      exact (KeyClass.mk_eq_iff lt).mpr heq.symm
    · rintro ⟨hx, hcl⟩
      exact ⟨hx.1, hcl⟩

/-- The head of a sorted list is the first entry. -/
theorem isFirst (h : Holds l F) (hsorted : l.Pairwise fun a b => lt a.1 b.1 = true) :
    F.IsFirst l.head? := by
  cases l with
  | nil =>
    intro k
    rw [h.eq_empty]
    rfl
  | cons e l =>
    refine ⟨h.find List.mem_cons_self (Equiv.refl e.1), fun k x hx => ?_⟩
    rcases List.mem_cons.mp ((h _ _).mp hx).1 with rfl | hmem
    · exact lt_irrefl x.1
    · exact lt_asymm (List.rel_of_pairwise_cons hsorted hmem)

/-- The size is the length of a list with one entry for each class. -/
theorem size (h : Holds l F) (hl : l.Pairwise fun a b => ¬ Equiv lt a.1 b.1) :
    F.size = l.length := by
  have hnd : (l.map fun e => KeyClass.mk lt e.1).Nodup := by
    refine List.pairwise_map.mpr (hl.imp ?_)
    intro a b hne heq
    exact hne ((KeyClass.mk_eq_iff lt).mp heq)
  have hset : {c | (F.get c).isSome} = {c | c ∈ l.map fun e => KeyClass.mk lt e.1} := by
    ext c
    simp only [Set.mem_ofPred_eq, Option.isSome_iff_exists, List.mem_map]
    constructor
    · rintro ⟨e, he⟩
      exact ⟨e, (h c e).mp he⟩
    · rintro ⟨e, he⟩
      exact ⟨e, (h c e).mpr he⟩
  classical
  unfold FMap.size
  rw [hset]
  have hcoe : {c | c ∈ l.map fun e => KeyClass.mk lt e.1}
      = ((l.map fun e => KeyClass.mk lt e.1).toFinset : Set (KeyClass lt)) := by
    ext c
    simp
  rw [hcoe, Set.ncard_coe_finset, List.toFinset_card_of_nodup hnd, List.length_map]

end Holds

end KernelEventsTrace.OrdMap
