import Mathlib.Data.List.Basic

/-!
# `KernelEventsTrace.Lib.Buffer`: arrays behind a pointer, and loops over them

A `Buffer` is what a pointer to an array points to: nothing, or the allocated cells. A read or
a write at an index outside of the cells is a fault. `forRange lo hi body` is the loop
`for (i = lo; i < hi; ++i)`.

`forRange_rule` is the invariant rule of the loop. `Writes lo hi f b b'` says that `b'` is `b`
with the cells from `lo` up to `hi` filled from `f`, and `forRange_writes` is the rule for a
loop that fills one cell after the other.

`Yields x P` says that `x` makes no fault, and that its value has the property `P` if it
returns. Its rules follow the statements of a program (`Yields.bind`, `Yields.bind_ok`).
`Returns x P` says the second half alone.

A program may also read an array after its deletion. `ignoreDeleted` is for statements about
bounds, to which such a read is no violation: it counts as an end of the program.
-/

set_option autoImplicit false

namespace KernelEventsTrace

/-- Why a program that uses arrays stops without a result. -/
inductive BufferFault where
  /-- A cell outside of the array, or behind a null pointer, was read or written. -/
  | outOfBounds
  /-- A cell of an array that was deleted was read. -/
  | deleted
  /-- An allocation never returned. -/
  | noMemory
  deriving Repr, DecidableEq

/-- What a pointer to an array points to. -/
inductive Buffer (α : Type) where
  | null
  | array (cells : List α)
  deriving Repr, DecidableEq

/-- `for (i = lo; i < hi; ++i)`, with the variables of the body as the state. -/
def forRange {σ ε : Type} (lo hi : Nat) (body : σ → Nat → Except ε σ) (s : σ) : Except ε σ :=
  (List.range' lo (hi - lo)).foldlM body s

namespace Buffer

variable {α : Type}

/-- The allocated cells. -/
def cells : Buffer α → List α
  | null => []
  | array l => l

/-- `p[i]`. -/
def read (b : Buffer α) (i : Nat) : Except BufferFault α :=
  match b.cells[i]? with
  | some a => .ok a
  | none => .error .outOfBounds

/-- `p[i] = a`. -/
def write (b : Buffer α) (i : Nat) (a : α) : Except BufferFault (Buffer α) :=
  match b with
  | null => .error .outOfBounds
  | array l => if i < l.length then .ok (array (l.set i a)) else .error .outOfBounds

/-- The null pointer has no cells. -/
@[simp] theorem cells_null : (null : Buffer α).cells = [] := rfl

/-- The cells of an array. -/
@[simp] theorem cells_array (l : List α) : (array l).cells = l := rfl

/-- A read inside of the array. -/
theorem read_of_getElem? {b : Buffer α} {i : Nat} {a : α} (h : b.cells[i]? = some a) :
    b.read i = .ok a := by
  unfold read
  rw [h]

/-- A read of the list that the array begins with. -/
theorem read_initial {l : List α} {b : Buffer α} (h : l <+: b.cells) {i : Nat}
    (hi : i < l.length) : b.read i = .ok l[i] :=
  read_of_getElem? (List.prefix_iff_getElem?.mp h i hi)

/-- The cell at an index, or `default` outside of the array. -/
def get [Inhabited α] (b : Buffer α) (i : Nat) : α := b.cells[i]?.getD default

/-- A read inside of the array. -/
theorem read_of_lt [Inhabited α] {b : Buffer α} {i : Nat} (h : i < b.cells.length) :
    b.read i = .ok (b.get i) := by
  unfold get
  rw [read_of_getElem? (List.getElem?_eq_getElem h), List.getElem?_eq_getElem h]
  rfl

/-- A write inside of the array. -/
theorem write_of_lt {b : Buffer α} {i : Nat} (h : i < b.cells.length) (a : α) :
    b.write i a = .ok (array (b.cells.set i a)) := by
  cases b with
  | null => simp at h
  | array l => exact if_pos h

/-- `p[j] = c[i]`. -/
theorem write_read [Inhabited α] {b c : Buffer α} {i j : Nat} (hi : i < c.cells.length)
    (hj : j < b.cells.length) :
    (do b.write j (← c.read i)) = .ok (array (b.cells.set j (c.get i))) := by
  rw [read_of_lt hi]
  exact write_of_lt hj _

/-- What an argument of the type `const T&` refers to in a call for an object that owns an array:
a value outside of the array, or the cell `i` of it. The call may delete the array before it reads
the argument. Then it finds `stale` in the memory of the cell, unless that cannot be read. -/
inductive Ref (α : Type) where
  | value (a : α)
  | own (i : Nat) (stale : Option α)
  deriving Repr, DecidableEq

/-- Reads the argument. `deleted` says that the array it may refer to is not the array `b` that
the object has now. -/
def Ref.read (deleted : Bool) (b : Buffer α) : Ref α → Except BufferFault α
  | value a => .ok a
  | own i stale =>
    if deleted then
      match stale with
      | some a => .ok a
      | none => .error .deleted
    else b.read i

/-- The cells from `lo` up to `hi` are filled from `f`, and the others stay. -/
structure Writes (lo hi : Nat) (f : Nat → α) (b b' : Buffer α) : Prop where
  null : b' = null ↔ b = null
  length : b'.cells.length = b.cells.length
  get : ∀ j, b'.cells[j]? = if lo ≤ j ∧ j < hi then some (f j) else b.cells[j]?

variable {lo hi : Nat} {f : Nat → α} {b b' b'' : Buffer α}

/-- An empty range changes nothing. -/
theorem Writes.refl (h : hi ≤ lo) : Writes lo hi f b b := by
  refine ⟨Iff.rfl, rfl, fun j => ?_⟩
  rw [if_neg (by omega)]

/-- One more cell. -/
theorem Writes.set (h : Writes lo hi f b b') (hle : lo ≤ hi) (hlt : hi < b.cells.length) :
    Writes lo (hi + 1) f b (array (b'.cells.set hi (f hi))) := by
  refine ⟨?_, ?_, fun j => ?_⟩
  · constructor
    · intro hn
      cases hn
    · intro hn
      rw [hn] at hlt
      simp at hlt
  · rw [cells_array, List.length_set, h.length]
  · rw [cells_array, List.getElem?_set, h.get, h.length, if_pos hlt]
    by_cases hj : hi = j
    · subst hj
      rw [if_pos rfl, if_pos (by omega)]
    · rw [if_neg hj]
      by_cases hin : lo ≤ j ∧ j < hi
      · rw [if_pos hin, if_pos (by omega)]
      · rw [if_neg hin, if_neg (by omega)]

/-- A cell outside of the range stays. -/
theorem Writes.get_of_le (h : Writes lo hi f b b') {j : Nat} (hj : hi ≤ j) :
    b'.cells[j]? = b.cells[j]? := by
  rw [h.get, if_neg (by omega)]

/-- The cells in front are kept. -/
theorem Writes.get_of_lt (h : Writes lo hi f b b') {j : Nat} (hj : j < lo) :
    b'.cells[j]? = b.cells[j]? := by
  rw [h.get, if_neg (by omega)]

/-- The cells up to the end of the range, as a list. -/
theorem Writes.take_eq (h : Writes lo hi f b b') (hle : lo ≤ hi) (hlen : lo ≤ b.cells.length) :
    b'.cells.take hi = b.cells.take lo ++ (List.range' lo (hi - lo)).map f := by
  refine List.ext_getElem? fun j => ?_
  have htake : (b.cells.take lo).length = lo := by
    rw [List.length_take]
    exact Nat.min_eq_left hlen
  rw [List.getElem?_take, h.get, List.getElem?_append, htake, List.getElem?_take, List.getElem?_map]
  rcases Nat.lt_or_ge j lo with hj | hj
  · rw [if_pos (by omega), if_neg (by omega), if_pos hj, if_pos hj]
  · rw [if_neg (by omega : ¬ j < lo)]
    rcases Nat.lt_or_ge j hi with hj' | hj'
    · rw [if_pos hj', if_pos ⟨hj, hj'⟩, List.getElem?_range' (by omega)]
      simp only [Nat.one_mul, Option.map_some]
      rw [show lo + (j - lo) = j by omega]
    · rw [if_neg (by omega), List.getElem?_eq_none (by rw [List.length_range']; omega)]
      rfl

/-- The values of a copy, as a list. -/
theorem map_get_range' [Inhabited α] {src : Buffer α} {n : Nat} (hn : n ≤ src.cells.length)
    (off : Nat) : (List.range' off n).map (fun j => src.get (j - off)) = src.cells.take n := by
  refine List.ext_getElem? fun j => ?_
  rw [List.getElem?_map, List.getElem?_take]
  rcases Nat.lt_or_ge j n with hj | hj
  · rw [if_pos hj, List.getElem?_range' hj, Option.map_some, Nat.one_mul, Nat.add_sub_cancel_left,
      List.getElem?_eq_getElem (by omega)]
    unfold get
    rw [List.getElem?_eq_getElem (by omega)]
    rfl
  · rw [if_neg (by omega), List.getElem?_eq_none (by rw [List.length_range']; exact hj)]
    rfl

end Buffer

/-! ### Loops -/

section
variable {σ ε : Type} {lo hi : Nat} {body : σ → Nat → Except ε σ} {s : σ}

/-- An empty range does nothing. -/
@[simp] theorem forRange_of_le (h : hi ≤ lo) : forRange lo hi body s = .ok s := by
  unfold forRange
  rw [Nat.sub_eq_zero_of_le h]
  rfl

/-- The first round of the loop. -/
theorem forRange_of_lt (h : lo < hi) :
    forRange lo hi body s = (body s lo).bind (forRange (lo + 1) hi body) := by
  obtain ⟨n, rfl⟩ : ∃ n, hi = lo + (n + 1) := ⟨hi - lo - 1, by omega⟩
  unfold forRange
  rw [show lo + (n + 1) - lo = n + 1 by omega, show lo + (n + 1) - (lo + 1) = n by omega,
    List.range'_succ, List.foldlM_cons]
  rfl

/-- The loop, cut in two. -/
theorem forRange_split {mid : Nat} (hlo : lo ≤ mid) (hhi : mid ≤ hi) :
    forRange lo hi body s = (forRange lo mid body s).bind (forRange mid hi body) := by
  obtain ⟨m, rfl⟩ : ∃ m, mid = lo + m := ⟨mid - lo, by omega⟩
  obtain ⟨n, rfl⟩ : ∃ n, hi = lo + (m + n) := ⟨hi - lo - m, by omega⟩
  unfold forRange
  rw [show lo + (m + n) - lo = m + n by omega, show lo + m - lo = m by omega,
    show lo + (m + n) - (lo + m) = n by omega, ← List.range'_append_1, List.foldlM_append]
  rfl

/-- The loop keeps an invariant that each round keeps. The induction is on the number of rounds
that are left. -/
theorem forRange_rule (P : Nat → σ → Prop) (h0 : P lo s) (hle : lo ≤ hi)
    (hstep : ∀ i s, lo ≤ i → i < hi → P i s → ∃ s', body s i = .ok s' ∧ P (i + 1) s') :
    ∃ s', forRange lo hi body s = .ok s' ∧ P hi s' := by
  obtain ⟨n, rfl⟩ : ∃ n, hi = lo + n := ⟨hi - lo, by omega⟩
  induction n generalizing lo s with
  | zero => exact ⟨s, forRange_of_le (by omega), h0⟩
  | succ n ih =>
    obtain ⟨s1, hs1, h1⟩ := hstep lo s (by omega) (by omega) h0
    have heq : lo + (n + 1) = lo + 1 + n := by omega
    rw [heq] at hstep ⊢
    obtain ⟨s2, hs2, h2⟩ := ih h1 (by omega) fun i s hi hlt => hstep i s (by omega) hlt
    refine ⟨s2, ?_, h2⟩
    rw [forRange_of_lt (by omega), hs1]
    exact hs2

end

/-- A loop that fills the cells from `lo + off` up to `hi + off`, one in each round. -/
theorem forRange_writes {α ε : Type} {lo hi : Nat} (off : Nat) {f : Nat → α} {b : Buffer α}
    {body : Buffer α → Nat → Except ε (Buffer α)} (hle : lo ≤ hi)
    (hlen : hi + off ≤ b.cells.length)
    (hbody : ∀ i q, lo ≤ i → i < hi → Buffer.Writes (lo + off) (i + off) f b q →
      body q i = .ok (.array (q.cells.set (i + off) (f (i + off))))) :
    ∃ b', forRange lo hi body b = .ok b' ∧ Buffer.Writes (lo + off) (hi + off) f b b' := by
  refine forRange_rule (fun i q => Buffer.Writes (lo + off) (i + off) f b q)
    (Buffer.Writes.refl (Nat.le_refl _)) hle fun i q hlo hlt hq => ?_
  refine ⟨_, hbody i q hlo hlt hq, ?_⟩
  have hset := hq.set (by omega) (by omega)
  rw [show i + 1 + off = i + off + 1 by omega]
  exact hset

/-! ### Programs that make no fault -/

/-- The program makes no fault, and if it returns, its value has the property. -/
def Yields {α : Type} (x : Except BufferFault α) (P : α → Prop) : Prop :=
  match x with
  | .ok a => P a
  | .error .noMemory => True
  | .error .outOfBounds => False
  | .error .deleted => False

/-- The program makes no fault: it stays within the arrays that are there. -/
def Faultless {α : Type} (x : Except BufferFault α) : Prop :=
  x ≠ .error .outOfBounds ∧ x ≠ .error .deleted

/-- The program, with a read of a deleted array as the end of it. -/
def ignoreDeleted {α : Type} (x : Except BufferFault α) : Except BufferFault α :=
  match x with
  | .error .deleted => .error .noMemory
  | x => x

section
variable {α β : Type} {P : α → Prop} {Q : β → Prop} {x : Except BufferFault α}

/-- A result that is known. -/
theorem Yields.of_eq_ok {a : α} (hx : x = .ok a) (h : P a) : Yields x P := by
  rw [hx]
  exact h

/-- The value of a program that returned. -/
theorem Yields.value (h : Yields x P) {a : α} (hx : x = .ok a) : P a := by
  rw [hx] at h
  exact h

/-- A program that yields makes no fault. -/
theorem Yields.faultless (h : Yields x P) : Faultless x := by
  constructor
  · intro hx
    rw [hx] at h
    exact h
  · intro hx
    rw [hx] at h
    exact h

/-- What is asked of the result can be less. -/
theorem Yields.mono {P' : α → Prop} (h : Yields x P) (hP : ∀ a, P a → P' a) : Yields x P' := by
  match x, h with
  | .ok a, h => exact hP a h
  | .error .noMemory, _ => trivial

/-- Two things about a result. -/
theorem Yields.and {P' : α → Prop} (h : Yields x P) (h' : Yields x P') :
    Yields x fun a => P a ∧ P' a := by
  match x, h, h' with
  | .ok a, h, h' => exact ⟨h, h'⟩
  | .error .noMemory, _, _ => trivial

/-- A program after another one. -/
theorem Yields.bind {f : α → Except BufferFault β} (h : Yields x P)
    (hf : ∀ a, P a → Yields (f a) Q) : Yields (x >>= f) Q := by
  match x, h with
  | .ok a, h => exact hf a h
  | .error .noMemory, _ => trivial

/-- A program after one whose value is known. -/
theorem Yields.bind_ok {f : α → Except BufferFault β} {a : α} (hx : x = .ok a)
    (h : Yields (f a) Q) : Yields (x >>= f) Q := by
  rw [hx]
  exact h

/-- The result is changed. -/
theorem Yields.map {f : α → β} (h : Yields x P) (hf : ∀ a, P a → Q (f a)) :
    Yields (x.map f) Q := by
  match x, h with
  | .ok a, h => exact hf a h
  | .error .noMemory, _ => trivial

end

section
variable {α β : Type} {P : α → Prop} {x : Except BufferFault α}

/-- A result is no fault. -/
@[simp] theorem ignoreDeleted_ok (a : α) : ignoreDeleted (.ok a) = .ok a := rfl

/-- A program that makes no fault is not changed. -/
theorem Yields.ignoreDeleted (h : Yields x P) : Yields (ignoreDeleted x) P := by
  match x, h with
  | .ok a, h => exact h
  | .error .noMemory, _ => trivial

/-- No fault becomes a result. -/
theorem ignoreDeleted_eq_ok_iff {a : α} : ignoreDeleted x = .ok a ↔ x = .ok a := by
  match x with
  | .ok b => exact Iff.rfl
  | .error .noMemory => exact Iff.rfl
  | .error .outOfBounds => exact Iff.rfl
  | .error .deleted =>
    constructor
    · intro h
      cases h
    · intro h
      cases h

/-- What is left to show of a program without faults is that its accesses are within bounds. -/
theorem faultless_ignoreDeleted_iff : Faultless (ignoreDeleted x) ↔ x ≠ .error .outOfBounds := by
  match x with
  | .ok b => simp [Faultless, KernelEventsTrace.ignoreDeleted]
  | .error .noMemory => simp [Faultless, KernelEventsTrace.ignoreDeleted]
  | .error .outOfBounds => simp [Faultless, KernelEventsTrace.ignoreDeleted]
  | .error .deleted => simp [Faultless, KernelEventsTrace.ignoreDeleted]

/-- The result can be changed before or after. -/
theorem ignoreDeleted_map (f : α → β) : ignoreDeleted (x.map f) = (ignoreDeleted x).map f := by
  match x with
  | .ok b => rfl
  | .error .noMemory => rfl
  | .error .outOfBounds => rfl
  | .error .deleted => rfl

/-- The first fault of two programs in a row is the fault of the whole. -/
theorem ignoreDeleted_bind (f : α → Except BufferFault β) :
    ignoreDeleted (x >>= f) = ignoreDeleted x >>= fun a => ignoreDeleted (f a) := by
  match x with
  | .ok b => rfl
  | .error .noMemory => rfl
  | .error .outOfBounds => rfl
  | .error .deleted => rfl

end

/-- A reference to a cell that exists reads some value, if only the bounds matter. -/
theorem Buffer.Ref.yields_read {α : Type} {deleted : Bool} {b : Buffer α} {d : Buffer.Ref α}
    (hd : ∀ i stale, d = .own i stale → i < b.cells.length) :
    Yields (ignoreDeleted (d.read deleted b)) fun _ => True := by
  cases d with
  | value a => trivial
  | own i stale =>
    have hcell := List.getElem?_eq_getElem (hd i stale rfl)
    cases deleted with
    | true => cases stale <;> trivial
    | false =>
      show Yields (ignoreDeleted (b.read i)) _
      rw [Buffer.read_of_getElem? hcell]
      trivial

/-! ### Programs that may make a fault -/

/-- If the program returns, its value has the property. -/
def Returns {α : Type} (x : Except BufferFault α) (P : α → Prop) : Prop := ∀ a, x = .ok a → P a

section
variable {α β : Type} {P : α → Prop} {Q : β → Prop} {x : Except BufferFault α}

/-- A result that is known. -/
theorem returns_ok {a : α} (h : P a) : Returns (.ok a) P := by
  intro b hb
  cases hb
  exact h

/-- What is asked of the result can be less. -/
theorem Returns.mono {P' : α → Prop} (h : Returns x P) (hP : ∀ a, P a → P' a) : Returns x P' :=
  fun a ha => hP a (h a ha)

/-- Two programs, one after the other. -/
theorem Returns.bind {f : α → Except BufferFault β} (h : Returns x P)
    (hf : ∀ a, P a → Returns (f a) Q) : Returns (x >>= f) Q := by
  intro b hb
  cases x with
  | error e => cases hb
  | ok a => exact hf a (h a rfl) b hb

/-- The result is changed. -/
theorem Returns.map {f : α → β} (h : Returns x P) (hf : ∀ a, P a → Q (f a)) :
    Returns (x.map f) Q := by
  intro b hb
  cases x with
  | error e => cases hb
  | ok a =>
    cases hb
    exact hf a (h a rfl)

/-- A program of which nothing is known. -/
theorem returns_true (x : Except BufferFault α) : Returns x fun _ => True := fun _ _ => trivial

end

namespace Buffer

variable {α : Type} {b : Buffer α}

/-- A write that was made was inside of the array. -/
theorem returns_write (i : Nat) (a : α) :
    Returns (b.write i a) fun b' => i < b.cells.length ∧ b'.cells.length = b.cells.length := by
  intro b' hb'
  rcases Nat.lt_or_ge i b.cells.length with hlt | hge
  · rw [write_of_lt hlt] at hb'
    cases hb'
    exact ⟨hlt, List.length_set⟩
  · cases b with
    | null => cases hb'
    | array l =>
      have hfault : (array l).write i a = .error .outOfBounds := if_neg (Nat.not_lt.mpr hge)
      rw [hfault] at hb'
      cases hb'

/-- A loop that writes at the index `i + off` in the round `i`. If it returns, the array has all
these indices. -/
theorem returns_writeLoop {lo hi off : Nat} {body : Buffer α → Nat → Except BufferFault (Buffer α)}
    (hbody : ∀ q i, Returns (body q i) fun q' =>
      i + off < q.cells.length ∧ q'.cells.length = q.cells.length) :
    Returns (forRange lo hi body b) fun b' =>
      b'.cells.length = b.cells.length ∧ (lo < hi → hi + off ≤ b.cells.length) := by
  rcases Nat.lt_or_ge lo hi with hlt | hge
  · obtain ⟨n, rfl⟩ : ∃ n, hi = lo + (n + 1) := ⟨hi - lo - 1, by omega⟩
    clear hlt
    -- The induction is on the number of rounds behind the first one.
    induction n generalizing lo b with
    | zero =>
      rw [forRange_of_lt (by omega)]
      refine Returns.bind (hbody b lo) fun q hq => ?_
      rw [forRange_of_le (by omega)]
      exact returns_ok ⟨hq.2, fun _ => by omega⟩
    | succ n ih =>
      rw [forRange_of_lt (by omega), show lo + (n + 1 + 1) = lo + 1 + (n + 1) by omega]
      refine Returns.bind (hbody b lo) fun q hq => ?_
      refine ih.mono fun b' hb' => ?_
      exact ⟨hb'.1.trans hq.2, fun _ => hq.2 ▸ hb'.2 (by omega)⟩
  · rw [forRange_of_le hge]
    exact returns_ok ⟨rfl, fun hlt => absurd hlt (Nat.not_lt.mpr hge)⟩

end Buffer

end KernelEventsTrace
