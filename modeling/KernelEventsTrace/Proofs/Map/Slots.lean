import KernelEventsTrace.Driver.Std.MapMoveSpec
import KernelEventsTrace.Proofs.Map.Copy

/-!
# `KernelEventsTrace.Proofs.Map.Slots`: maps at addresses of their own

An address holds no map, a map that was moved from, or a well-formed map (`Slot`). A map owns its
sentinel and its nodes, and one that was moved from owns nothing (`owned`). The invariant
`MoveWorld.Inv` says that no two addresses own the same memory.

All changes of a world are of one kind. One address gets another map, which owns no memory of the
others, and the memory of the others stays (`Inv.update`). From this follow `Inv.evolve` for a
member function, `Inv.construct`, `Inv.release` for the end of a map, and `Inv.move`.
-/

set_option autoImplicit false

namespace KernelEventsTrace.Driver.Std

open KernelEventsTrace.RedBlack
open KernelEventsTrace.OrdMap

variable {K V : Type} {compare : K → K → Bool}

/-- The memory that the map at an address owns. -/
def owned (c : Option MapObj) (t : RbTree (Entry K V)) : List Ptr :=
  match c with
  | none => []
  | some o => if o.nil = nullptr then [] else World.footprint o t

/-- A map with a sentinel owns its footprint. -/
theorem owned_of_ne {o : MapObj} (h : o.nil ≠ nullptr) (t : RbTree (Entry K V)) :
    owned (some o) t = World.footprint o t := if_neg h

/-- What a slot owns is in the footprint of its map. -/
theorem mem_owned {c : Option MapObj} {t : RbTree (Entry K V)} {a : Ptr} (h : a ∈ owned c t) :
    ∃ o, c = some o ∧ a ∈ World.footprint o t := by
  cases c with
  | none => exact absurd h List.not_mem_nil
  | some o =>
    refine ⟨o, rfl, ?_⟩
    by_cases hnil : o.nil = nullptr
    · rw [owned, if_pos hnil] at h
      exact absurd h List.not_mem_nil
    · rwa [owned_of_ne hnil] at h

section
variable [StrictWeak compare]

/-- What is at an address, and the finite map and the tree for it. -/
inductive Slot (heap : Heap K V) :
    Option MapObj → Option (FMap compare V) → RbTree (Entry K V) → Prop where
  | absent (t : RbTree (Entry K V)) : Slot heap none none t
  | moved (t : RbTree (Entry K V)) : Slot heap (some Map.movedFrom) (some FMap.empty) t
  | whole {o : MapObj} {F : FMap compare V} {t : RbTree (Entry K V)} :
      Map.WF compare { o with heap := heap } t → Holds (Map.entries t) F →
      Slot heap (some o) (some F) t

variable {heap heap' : Heap K V} {c : Option MapObj} {F : Option (FMap compare V)}
  {t : RbTree (Entry K V)}

/-- What an address owns has been allocated. -/
theorem Slot.lt_next (h : Slot heap c F t) : ∀ a ∈ owned c t, a < heap.next := by
  intro a ha
  cases h with
  | absent t => exact absurd ha List.not_mem_nil
  | moved t => exact absurd ha List.not_mem_nil
  | whole hwf hF =>
    rw [owned_of_ne hwf.rep.nil_ne_nullptr] at ha
    rcases List.mem_cons.mp ha with rfl | ha
    · exact hwf.rep.nil_lt_next
    · exact hwf.rep.lt_next ha

/-- What is at an address depends on the memory that it owns. -/
theorem Slot.congr (h : Slot heap c F t) (hg : ∀ a ∈ owned c t, heap'.get a = heap.get a) :
    Slot heap' c F t := by
  cases h with
  | absent t => exact .absent t
  | moved t => exact .moved t
  | whole hwf hF =>
    rw [owned_of_ne hwf.rep.nil_ne_nullptr] at hg
    exact .whole (hwf.congr fun a ha => hg a (List.mem_cons.mpr ha)) hF

namespace MoveWorld

/-- The invariant: what is at the addresses, and no memory has two owners. -/
structure Inv (w : MoveWorld K V) (Fs : Nat → Option (FMap compare V))
    (ts : Nat → RbTree (Entry K V)) : Prop where
  slot : ∀ i, Slot w.heap (w.maps i) (Fs i) (ts i)
  apart : ∀ i j, i ≠ j → ∀ a ∈ owned (w.maps i) (ts i), a ∉ owned (w.maps j) (ts j)

variable {w : MoveWorld K V} {Fs : Nat → Option (FMap compare V)} {ts : Nat → RbTree (Entry K V)}
  {i j : Nat} {o : MapObj}

/-- Something else is at one address. It owns no memory of the other addresses, and their memory
stays as it is. -/
theorem Inv.update (h : w.Inv Fs ts) (hslot : Slot heap' c F t)
    (hkeep : ∀ k, k ≠ i → ∀ a ∈ owned (w.maps k) (ts k),
      a ∉ owned c t ∧ heap'.get a = w.heap.get a) :
    Inv ⟨heap', Function.update w.maps i c⟩ (Function.update Fs i F)
      (Function.update ts i t) := by
  constructor
  · intro k
    show Slot heap' (Function.update w.maps i c k) _ _
    by_cases hk : k = i
    · subst hk
      rw [Function.update_self, Function.update_self, Function.update_self]
      exact hslot
    · rw [Function.update_of_ne hk, Function.update_of_ne hk, Function.update_of_ne hk]
      exact (h.slot k).congr fun a ha => (hkeep k hk a ha).2
  · show ∀ k l, k ≠ l → ∀ a ∈ owned (Function.update w.maps i c k) (Function.update ts i t k),
      a ∉ owned (Function.update w.maps i c l) (Function.update ts i t l)
    intro k l hkl a ha hb
    -- The address that changes is the first one, the second one, or none of the two.
    by_cases hk : k = i
    · subst hk
      rw [Function.update_self, Function.update_self] at ha
      rw [Function.update_of_ne (Ne.symm hkl), Function.update_of_ne (Ne.symm hkl)] at hb
      exact (hkeep l (Ne.symm hkl) a hb).1 ha
    · rw [Function.update_of_ne hk, Function.update_of_ne hk] at ha
      by_cases hl : l = i
      · subst hl
        rw [Function.update_self, Function.update_self] at hb
        exact (hkeep k hk a ha).1 hb
      · rw [Function.update_of_ne hl, Function.update_of_ne hl] at hb
        exact h.apart k l hkl a ha hb

/-- What the other addresses own is not part of a map, and was allocated. -/
theorem Inv.outside (h : w.Inv Fs ts) (hi : w.maps i = some o) (hnil : o.nil ≠ nullptr) {k : Nat}
    (hk : k ≠ i) {a : Ptr} (ha : a ∈ owned (w.maps k) (ts k)) :
    a < w.heap.next ∧ a ∉ World.footprint o (ts i) := by
  have hout := h.apart k i hk a ha
  rw [hi, owned_of_ne hnil] at hout
  exact ⟨(h.slot k).lt_next a ha, hout⟩

/-- A member function was called. -/
theorem Inv.evolve (h : w.Inv Fs ts) (hi : w.maps i = some o) (hnil : o.nil ≠ nullptr)
    {m' : Map K V} {F' : FMap compare V} (hwf : m'.WF compare t) (hF : Holds (Map.entries t) F')
    (hev : Map.Evolves { o with heap := w.heap } (ts i) m' t) :
    (w.put i m').Inv (Function.update Fs i (some F')) (Function.update ts i t) := by
  refine h.update (.whole hwf hF) fun k hk a ha => ?_
  obtain ⟨hlt, hout⟩ := h.outside hi hnil hk ha
  rw [owned_of_ne hwf.rep.nil_ne_nullptr]
  exact World.outside_of_evolves hev hlt hout

/-- An empty map was constructed. -/
theorem Inv.construct [Inhabited K] [Inhabited V] (h : w.Inv Fs ts) :
    (w.put i (Map.construct w.heap)).Inv (Function.update Fs i (some FMap.empty))
      (Function.update ts i .nil) := by
  have hwf := Map.construct_spec compare w.heap
  refine h.update (.whole hwf Holds.nil) fun k hk a ha => ?_
  rw [owned_of_ne hwf.rep.nil_ne_nullptr]
  exact World.outside_of_construct w.heap ((h.slot k).lt_next a ha)

/-- A map is now at another address, where none was, and its own address has one that was moved
from. The memory has not changed. -/
theorem Inv.move (h : w.Inv Fs ts) (hi : w.maps i = none) {F' : FMap compare V}
    (hj : w.maps j = some o) (hFj : Fs j = some F') :
    Inv ⟨w.heap, Function.update (Function.update w.maps i (some o)) j (some Map.movedFrom)⟩
      (Function.update (Function.update Fs i (some F')) j (some FMap.empty))
      (Function.update (Function.update ts i (ts j)) j .nil) := by
  have hij : i ≠ j := by
    intro heq
    rw [heq, hj] at hi
    cases hi
  have hslot := h.slot j
  rw [hj, hFj] at hslot
  -- In between, no address has the map.
  have hleft : Inv ⟨w.heap, Function.update w.maps j (some Map.movedFrom)⟩
      (Function.update Fs j (some FMap.empty)) (Function.update ts j .nil) :=
    h.update (.moved _) fun k _ a _ => ⟨List.not_mem_nil, rfl⟩
  have htaken := hleft.update (i := i) hslot fun k hk a ha => by
    refine ⟨?_, rfl⟩
    have ha : a ∈ owned (Function.update w.maps j (some Map.movedFrom) k)
      (Function.update ts j .nil k) := ha
    by_cases hkj : k = j
    · subst hkj
      rw [Function.update_self] at ha
      exact absurd ha List.not_mem_nil
    · rw [Function.update_of_ne hkj, Function.update_of_ne hkj] at ha
      have hout := h.apart k j hkj a ha
      rwa [hj] at hout
  rw [Function.update_comm hij _ _ w.maps, Function.update_comm hij _ _ Fs,
    Function.update_comm hij _ _ ts]
  exact htaken

/-- The destructor, which a move assignment runs too. -/
theorem Inv.release (h : w.Inv Fs ts) (hi : w.maps i = some o) :
    ∃ m', Map.destroy { o with heap := w.heap } = .ok m' ∧
      Inv ⟨m'.heap, Function.update w.maps i none⟩ (Function.update Fs i none)
        (Function.update ts i .nil) := by
  have hslot := h.slot i
  rw [hi] at hslot
  generalize Fs i = c at hslot
  cases hslot with
  | moved t =>
    -- `Clear` finds no node, and `delete` of a null pointer does nothing.
    exact ⟨_, rfl, h.update (.absent _) fun k _ a _ => ⟨List.not_mem_nil, rfl⟩⟩
  | whole hwf hF =>
    obtain ⟨m1, hm1, hwf1, hev⟩ := Map.clear_spec hwf
    -- `Clear` has kept the sentinel, so it can be deleted.
    obtain ⟨n, hn, -⟩ := hwf1.rep.nilCell
    refine ⟨{ m1 with heap := m1.heap.put m1.nil none }, ?_, ?_⟩
    · unfold Map.destroy Map.deleteNil
      simp only [hm1, bind, Except.bind, if_neg hwf1.rep.nil_ne_nullptr, Map.deleteNode_eq hn]
    · refine h.update (.absent _) fun k hk a ha => ⟨List.not_mem_nil, ?_⟩
      obtain ⟨hlt, hout⟩ := h.outside hi hwf.rep.nil_ne_nullptr hk ha
      obtain ⟨hout1, hkeep⟩ := World.outside_of_evolves hev hlt hout
      rw [Heap.get_put_of_get hn, if_neg (List.ne_of_not_mem_cons hout1)]
      exact hkeep

end MoveWorld

end

end KernelEventsTrace.Driver.Std
