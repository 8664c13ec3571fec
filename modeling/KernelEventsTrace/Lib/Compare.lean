import KernelEventsTrace.Lib.Buffer

/-!
# `KernelEventsTrace.Lib.Compare`: two arrays, element by element

`compareFrom a b off n i` is a loop that compares `n` cells of `a`, from `i` on, with those of `b`
that stand `off` further, and returns at the first difference.

`compareFrom_eq` gives its result for every two arrays, and `compareFrom_of_le` if the cells exist
in both.
-/

set_option autoImplicit false

namespace KernelEventsTrace.Buffer

variable {α : Type} [DecidableEq α]

/-- The comparison loop `if (a[i] != b[off + i]) return false`, for `n` values of `i`. -/
def compareFrom (a b : Buffer α) (off : Nat) : (n i : Nat) → Except BufferFault Bool
  | 0, _ => .ok true
  | n + 1, i => do
    if (← a.read i) ≠ (← b.read (off + i)) then return false
    else compareFrom a b off n (i + 1)

/-- The loop compares a window of `b` with one of `a`. It stops at the first difference, and makes a
fault if the window of `b` ends before that. -/
theorem compareFrom_eq (a b : Buffer α) (off : Nat) {n i : Nat} (ha : i + n ≤ a.cells.length) :
    compareFrom a b off n i =
      if (b.cells.drop (off + i)).take n = (a.cells.drop i).take n then .ok true
      else if (b.cells.drop (off + i)).take n <+: (a.cells.drop i).take n then
        .error .outOfBounds
      else .ok false := by
  induction n generalizing i with
  | zero => simp [compareFrom]
  | succ n ih =>
    have hread : a.read i = .ok a.cells[i] :=
      Buffer.read_of_getElem? (List.getElem?_eq_getElem (by omega))
    have hcons := List.drop_eq_getElem_cons (show i < a.cells.length by omega)
    rw [compareFrom, hread, hcons, List.take_succ_cons]
    rcases Nat.lt_or_ge (off + i) b.cells.length with hlt | hge
    · have hread' : b.read (off + i) = .ok b.cells[off + i] :=
        Buffer.read_of_getElem? (List.getElem?_eq_getElem hlt)
      rw [hread', List.drop_eq_getElem_cons hlt, List.take_succ_cons]
      show (if a.cells[i] ≠ b.cells[off + i] then _ else compareFrom a b off n (i + 1)) = _
      by_cases heq : a.cells[i] = b.cells[off + i]
      · rw [if_neg (not_not_intro heq), ih (by omega), ← heq,
          show off + (i + 1) = off + i + 1 by omega]
        simp only [List.cons.injEq, List.cons_prefix_cons, true_and]
      · rw [if_pos heq, if_neg, if_neg]
        · rfl
        · exact fun hpre => heq (List.cons_prefix_cons.mp hpre).1.symm
        · exact fun hall => heq (List.cons.inj hall).1.symm
    · -- The window of `b` is empty.
      have hfault : b.read (off + i) = .error .outOfBounds := by
        unfold Buffer.read
        rw [List.getElem?_eq_none hge]
      rw [hfault, List.drop_eq_nil_of_le hge, List.take_nil, if_neg (List.cons_ne_nil _ _).symm,
        if_pos List.nil_prefix]
      rfl

/-- Both windows are inside of their arrays. -/
theorem compareFrom_of_le {a b : Buffer α} {off n : Nat} (ha : n ≤ a.cells.length)
    (hb : off + n ≤ b.cells.length) :
    compareFrom a b off n 0 = .ok (decide ((b.cells.drop off).take n = a.cells.take n)) := by
  rw [compareFrom_eq a b off (by omega), Nat.add_zero, List.drop_zero]
  by_cases heq : (b.cells.drop off).take n = a.cells.take n
  · rw [if_pos heq, decide_eq_true heq]
  · have hlen : ((b.cells.drop off).take n).length = (a.cells.take n).length := by
      rw [List.length_take, List.length_drop, List.length_take]
      omega
    rw [if_neg heq, if_neg fun hpre => heq (hpre.eq_of_length hlen), decide_eq_false heq]

end KernelEventsTrace.Buffer
