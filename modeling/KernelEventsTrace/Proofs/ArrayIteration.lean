import KernelEventsTrace.Driver.Std.ArrayIterator
import Mathlib.Data.List.TakeWhile

/-!
# `KernelEventsTrace.Proofs.ArrayIteration`: loops over `Vector` and `String`

* `forEach_touches_end`: the first test of the loop reads the position of `End()`, so no loop stays
  in front of it.
* `forEach_visits`: if that position can be read, the loop ends at the first element that is equal
  to what lies there. All elements are visited if and only if there is no such element.
-/

set_option autoImplicit false

namespace KernelEventsTrace.Driver.Std

open KernelEventsTrace (BufferFault Buffer)

variable {α : Type} [DecidableEq α]

/-- The loop from `it` to `last` ends, visits the positions below `size` in order, and reads no
other ones. -/
def VisitsAll (it last : ArrayIterator α) (size : Nat) : Prop :=
  ∃ tests t, ArrayIterator.forEach tests it last ⟨[], []⟩ = .ok (some t) ∧
    t.visited = List.range size ∧ ∀ p ∈ t.touched, p < size

namespace ArrayIterator

variable {it last : ArrayIterator α} {t t' : Trace} {n : Nat}

/-- The record only grows. The induction is on the number of tests. -/
theorem touched_subset_of_forEach (h : forEach n it last t = .ok (some t')) :
    t.touched ⊆ t'.touched := by
  induction n generalizing it t with
  | zero => cases h
  | succ n ih =>
    rw [forEach] at h
    cases hgoes : it.notEqual last with
    | error e =>
      rw [hgoes] at h
      cases h
    | ok goes =>
      rw [hgoes] at h
      cases goes with
      | true =>
        -- The test was passed, and the rest of the loop adds to the record.
        have hrest := ih h
        exact fun p hp => hrest (List.mem_append_left _ hp)
      | false =>
        cases h
        exact List.subset_append_left _ _

/-- A loop that ends has read the position of `last`. -/
theorem touches_last (h : forEach n it last t = .ok (some t')) : last.curr ∈ t'.touched := by
  cases n with
  | zero => cases h
  | succ n =>
    rw [forEach] at h
    cases hgoes : it.notEqual last with
    | error e =>
      rw [hgoes] at h
      cases h
    | ok goes =>
      rw [hgoes] at h
      cases goes with
      | true => exact touched_subset_of_forEach h (by simp)
      | false =>
        cases h
        simp

/-- The test of the loop, if both positions can be read. -/
theorem notEqual_eq {b : Buffer α} {i j : Nat} {x y : α} (hi : b.cells[i]? = some x)
    (hj : b.cells[j]? = some y) : notEqual ⟨b, i⟩ ⟨b, j⟩ = .ok (decide (x ≠ y)) := by
  unfold notEqual deref
  rw [Buffer.read_of_getElem? hi, Buffer.read_of_getElem? hj]
  rfl

/-- The loop runs as long as the elements are different from the one at the end. The induction is
on the number of elements that are left. -/
theorem forEach_spec {b : Buffer α} {size : Nat} {y : α} (hy : b.cells[size]? = some y) :
    ∀ {left i : Nat}, i + left = size → ∀ t : Trace, ∃ t',
      forEach (left + 1) ⟨b, i⟩ ⟨b, size⟩ t = .ok (some t') ∧
        t'.visited = t.visited ++
          List.range' i (((b.cells.drop i).take left).takeWhile fun x => x ≠ y).length := by
  intro left
  induction left with
  | zero =>
    intro i hi t
    obtain rfl : i = size := by omega
    refine ⟨{ t with touched := t.touched ++ [i, i] }, ?_, by simp⟩
    rw [forEach, notEqual_eq hy hy, decide_eq_false (not_not_intro rfl)]
    rfl
  | succ left ih =>
    intro i hi t
    obtain ⟨hlt, -⟩ := List.getElem?_eq_some_iff.mp hy
    have hget : b.cells[i]? = some b.cells[i] := List.getElem?_eq_getElem (by omega)
    rw [forEach, notEqual_eq hget hy, List.drop_eq_getElem_cons (show i < b.cells.length by omega),
      List.take_succ_cons]
    by_cases heq : b.cells[i] = y
    · -- The element is equal to the one at the end.
      refine ⟨{ t with touched := t.touched ++ [i, size] }, ?_, ?_⟩
      · rw [decide_eq_false (not_not_intro heq)]
        rfl
      · rw [List.takeWhile_cons_of_neg (by simpa using heq)]
        simp
    · -- The element is visited, and the rest of the loop follows.
      rw [decide_eq_true heq, List.takeWhile_cons_of_pos (by simpa using heq)]
      obtain ⟨t', ht', hvisited⟩ := ih (show i + 1 + left = size by omega)
        ⟨t.visited ++ [i], t.touched ++ [i, size]⟩
      refine ⟨t', ht', ?_⟩
      rw [hvisited, List.length_cons, List.range'_succ, List.append_assoc]
      rfl

/-- A loop up to a position that the array has visits all positions in front of it, if and only if
no element there is equal to the one at the end. -/
theorem forEach_visits {b : Buffer α} {size : Nat} {y : α} (hy : b.cells[size]? = some y) :
    ∃ t, forEach (size + 1) ⟨b, 0⟩ ⟨b, size⟩ ⟨[], []⟩ = .ok (some t) ∧
      (t.visited = List.range size ↔ ∀ x ∈ b.cells.take size, x ≠ y) := by
  obtain ⟨hlt, -⟩ := List.getElem?_eq_some_iff.mp hy
  obtain ⟨t, ht, hvisited⟩ := forEach_spec hy (Nat.zero_add size) ⟨[], []⟩
  refine ⟨t, ht, ?_⟩
  have hlen : (b.cells.take size).length = size := by
    rw [List.length_take]
    exact Nat.min_eq_left (Nat.le_of_lt hlt)
  rw [hvisited, List.drop_zero, List.nil_append, List.range_eq_range']
  constructor
  · -- As many positions as elements were visited, so no element ended the loop.
    intro h x hx
    have hall := congrArg List.length h
    rw [List.length_range', List.length_range'] at hall
    have hpre := List.takeWhile_prefix (l := b.cells.take size) fun x => decide (x ≠ y)
    have hself := hpre.eq_of_length (hall.trans hlen.symm)
    exact of_decide_eq_true (List.takeWhile_eq_self_iff.mp hself x hx)
  · intro h
    rw [List.takeWhile_eq_self_iff.mpr fun x hx => decide_eq_true (h x hx), hlen]

/-- A loop that ends does not stay in front of its end. -/
theorem not_visitsAll {it last : ArrayIterator α} : ¬ VisitsAll it last last.curr := by
  intro h
  obtain ⟨tests, t, hrun, -, hbefore⟩ := h
  exact Nat.lt_irrefl _ (hbefore last.curr (touches_last hrun))

end ArrayIterator

/-- The loop over a container reads the position of `End()`, if it ends at all. -/
theorem forEach_touches_end :
    (∀ v : VectorObj α, ¬ VisitsAll v.beginIt v.endIt v.size) ∧
      ∀ s : StringObj α, ¬ VisitsAll s.beginIt s.endIt s.size := by
  constructor
  · intro v
    show ¬ VisitsAll v.beginIt v.endIt v.endIt.curr
    exact ArrayIterator.not_visitsAll
  · intro s
    show ¬ VisitsAll s.beginIt s.endIt s.endIt.curr
    exact ArrayIterator.not_visitsAll

/-- A vector with the single element 0 shows no element, because a 0 lies behind it. The test reads
the positions 0 and 1. With no space behind its elements a vector makes a fault. -/
theorem not_visitsAll_zero :
    runVectors ⟨64, by decide⟩ [.construct, .pushBack 0 0, .constructSize 1] =
        .ok [(⟨1, .array [0, 0, 0, 0, 0, 0, 0, 0], 8⟩ : VectorObj Nat), ⟨1, .array [0], 1⟩] ∧
      ArrayIterator.forEach 2 (⟨.array [0, 0, 0, 0, 0, 0, 0, 0], 0⟩ : ArrayIterator Nat)
        ⟨.array [0, 0, 0, 0, 0, 0, 0, 0], 1⟩ ⟨[], []⟩ = .ok (some ⟨[], [0, 1]⟩) ∧
      ArrayIterator.forEach 2 (⟨.array [0], 0⟩ : ArrayIterator Nat) ⟨.array [0], 1⟩ ⟨[], []⟩ =
        .error .outOfBounds ∧
      ¬ VisitsAll (⟨1, .array [0, 0, 0, 0, 0, 0, 0, 0], 8⟩ : VectorObj Nat).beginIt
        (⟨1, .array [0, 0, 0, 0, 0, 0, 0, 0], 8⟩ : VectorObj Nat).endIt 1 :=
  ⟨rfl, rfl, rfl, ArrayIterator.not_visitsAll⟩

end KernelEventsTrace.Driver.Std
