import KernelEventsTrace.Driver.Std.SharedPtr
import Mathlib.Order.Interval.Finset.Nat

/-!
# `KernelEventsTrace.Proofs.SharedPtr.Owned`: what the memory knows of its handles

`Owned m C out raw` says what the memory `m` knows of the handles in `C`, which count: the counter
of an object is the number of these handles that point to it, and an object is deleted if it was
given to a handle once and has none left. The handles in `out` exist too, but do not count. The
members of the objects that exist count, or are in `out`.

`Owned.newObject`, `Owned.construct` and `Owned.acquire` are the functions that add handles. An
assignment adds one in `Owned.acquire`, after its `Release` has put it into `out`.
-/

set_option autoImplicit false

namespace KernelEventsTrace.Driver.Std

variable {T : Type}

/-! ### Cells -/

section
variable {α β : Type} {cells : List (Option α)} {p q : Nat} {a : α}

/-- A cell has content if it is there and was not deleted. -/
theorem cellOf_eq_some_iff : cellOf cells p = some a ↔ cells[p]? = some (some a) :=
  Option.join_eq_some_iff

/-- A cell with content is one of those that were made. -/
theorem lt_of_cellOf (h : cellOf cells p = some a) : p < cells.length :=
  (List.getElem?_eq_some_iff.mp (cellOf_eq_some_iff.mp h)).1

/-- A read of a cell with content is no fault. -/
theorem cellAt_of_cellOf {fault : PtrFault} (h : cellOf cells p = some a) :
    cellAt fault cells p = .ok a := by
  unfold cellAt
  rw [h]

/-- Code that starts with the read of a cell goes on with its content. -/
theorem cellAt_bind {fault : PtrFault} (h : cellOf cells p = some a)
    (f : α → Except PtrFault β) : (cellAt fault cells p >>= f) = f a := by
  rw [cellAt_of_cellOf h]
  rfl

/-- A cell that was made and has no content was deleted. -/
theorem getElem?_of_cell_none (hp : p < cells.length) (h : cellOf cells p = none) :
    cells[p]? = some none := by
  unfold cellOf at h
  rw [List.getElem?_eq_getElem hp] at h ⊢
  exact congrArg some h

/-- A write to a cellOf that exists. -/
theorem cellOf_set (hp : p < cells.length) (x : Option α) :
    cellOf (cells.set p x) q = if q = p then x else cellOf cells q := by
  unfold cellOf
  by_cases hq : q = p
  · rw [if_pos hq, hq, List.getElem?_set_self hp]
    rfl
  · rw [if_neg hq, List.getElem?_set_ne (Ne.symm hq)]

/-- One more cellOf at the end. -/
theorem cellOf_concat (x : Option α) :
    cellOf (cells ++ [x]) q = if q = cells.length then x else cellOf cells q := by
  unfold cellOf
  by_cases hq : q = cells.length
  · rw [if_pos hq, hq, List.getElem?_concat_length]
    rfl
  · rw [if_neg hq]
    rcases Nat.lt_or_ge q cells.length with hlt | hge
    · rw [List.getElem?_append_left hlt]
    · rw [List.getElem?_eq_none (by simp; omega), List.getElem?_eq_none hge]

/-- More cells of the same content at the end. -/
theorem cellOf_append_replicate (n : Nat) (x : Option α) :
    cellOf (cells ++ List.replicate n x) q =
      if cells.length ≤ q ∧ q < cells.length + n then x else cellOf cells q := by
  unfold cellOf
  rw [List.getElem?_append]
  by_cases hq : q < cells.length
  · rw [if_pos hq, if_neg (by omega)]
  · rw [if_neg hq, List.getElem?_replicate, List.getElem?_eq_none (Nat.not_lt.mp hq)]
    by_cases hn : q < cells.length + n
    · rw [if_pos (by omega), if_pos ⟨Nat.not_lt.mp hq, hn⟩]
      rfl
    · rw [if_neg (by omega), if_neg (by omega)]

end

namespace SharedPtr

/-! ### The number of handles -/

section
variable {ptr ptr' : Nat → Option Nat} {C C' : Finset Nat} {i o : Nat}

/-- The number of handles in a set that point to an object. -/
def refs (ptr : Nat → Option Nat) (C : Finset Nat) (o : Nat) : Nat :=
  (C.filter fun i => ptr i = some o).card

/-- A number of handles is positive if one of them points to the object. -/
theorem refs_pos_iff : 0 < refs ptr C o ↔ ∃ i, i ∈ C ∧ ptr i = some o := by
  unfold refs
  rw [Finset.card_pos]
  exact ⟨fun ⟨i, hi⟩ => ⟨i, Finset.mem_filter.mp hi⟩, fun ⟨i, hi⟩ => ⟨i, Finset.mem_filter.mpr hi⟩⟩

/-- There are none if all of them point elsewhere. -/
theorem refs_eq_zero_iff : refs ptr C o = 0 ↔ ∀ i, i ∈ C → ptr i ≠ some o := by
  have hpos : 0 < refs ptr C o ↔ _ := refs_pos_iff
  constructor
  · intro hzero i hi hp
    have hlt := hpos.mpr ⟨i, hi, hp⟩
    omega
  · intro hall
    by_contra hne
    obtain ⟨i, hi, hp⟩ := hpos.mp (Nat.pos_of_ne_zero hne)
    exact hall i hi hp

/-- Of fewer handles no more point to an object. -/
theorem refs_mono (hsub : C' ⊆ C) : refs ptr C' o ≤ refs ptr C o :=
  Finset.card_le_card (Finset.filter_subset_filter _ hsub)

/-- No more handles point to an object than there are. -/
theorem refs_le_card : refs ptr C o ≤ C.card := Finset.card_filter_le _ _

/-- The number is read off where the handles point. -/
theorem refs_congr (h : ∀ i, i ∈ C → ptr i = ptr' i) : refs ptr C o = refs ptr' C o := by
  unfold refs
  congr 1
  exact Finset.filter_congr fun i hi => by rw [h i hi]

/-- One more handle to the object. -/
theorem refs_insert_of_ptr (hi : i ∉ C) (hp : ptr i = some o) :
    refs ptr (insert i C) o = refs ptr C o + 1 := by
  unfold refs
  rw [Finset.filter_insert, if_pos hp, Finset.card_insert_of_notMem]
  exact fun hmem => hi (Finset.mem_filter.mp hmem).1

/-- One more handle that points elsewhere. -/
theorem refs_insert_of_ne (hp : ptr i ≠ some o) : refs ptr (insert i C) o = refs ptr C o := by
  unfold refs
  rw [Finset.filter_insert, if_neg hp]

/-- One handle to the object is gone. -/
theorem refs_erase_of_ptr (hi : i ∈ C) (hp : ptr i = some o) :
    refs ptr (C.erase i) o + 1 = refs ptr C o := by
  rw [← refs_insert_of_ptr (Finset.notMem_erase i C) hp, Finset.insert_erase hi]

/-- One handle that points elsewhere is gone. -/
theorem refs_erase_of_ne (hp : ptr i ≠ some o) : refs ptr (C.erase i) o = refs ptr C o := by
  unfold refs
  rw [Finset.filter_erase, Finset.erase_eq_of_notMem]
  exact fun hmem => hp (Finset.mem_filter.mp hmem).2

end

/-! ### The invariant -/

/-- The handle is null, or it refers to an object and to the counter of that. -/
def Refers (m : SharedMemory T) (C : Finset Nat) (raw : List Nat) (h : SharedPtr) : Prop :=
  (h.ptr_ = none ∧ h.count_ = none) ∨ ∃ o c object, h.ptr_ = some o ∧ h.count_ = some c ∧
    cellOf m.objects o = some object ∧ o ∉ raw ∧ cellOf m.counters c = some (refs m.ptrAt C o : Int)

/-- The memory of a program with these handles, and with these pointers not given to a handle. -/
structure Owned (m : SharedMemory T) (C out : Finset Nat) (raw : List Nat) : Prop where
  refers : ∀ i, i ∈ C → ∃ h, cellOf m.handles i = some h ∧ Refers m C raw h
  agree : ∀ i, i ∈ C → ∀ k, k ∈ C → (m.ptrAt i = m.ptrAt k ↔ m.countAt i = m.countAt k)
  members : ∀ o object, cellOf m.objects o = some object → ∀ i, i ∈ object.members → i ∈ C ∪ out
  apart : ∀ o o' object object' i, cellOf m.objects o = some object →
    cellOf m.objects o' = some object' → i ∈ object.members → i ∈ object'.members → o = o'
  nodup_members : ∀ o object, cellOf m.objects o = some object → object.members.Nodup
  out_lt : ∀ i, i ∈ out → i < m.handles.length
  deleted_iff : ∀ o, o < m.objects.length → (o ∈ m.deleted ↔ o ∉ raw ∧ refs m.ptrAt C o = 0)
  empty_iff : ∀ o, m.objects[o]? = some none ↔ o ∈ m.deleted
  nodup : m.deleted.Nodup
  raw_lt : ∀ o, o ∈ raw → o < m.objects.length

/-- A program that has done nothing has no memory. -/
theorem owned_empty : Owned ({} : SharedMemory T) ∅ ∅ [] where
  refers i hi := absurd hi (Finset.notMem_empty i)
  agree i hi := absurd hi (Finset.notMem_empty i)
  members o object ho := nomatch ho
  apart o o' object object' i ho := nomatch ho
  nodup_members o object ho := nomatch ho
  out_lt i hi := absurd hi (Finset.notMem_empty i)
  deleted_iff o ho := absurd ho (Nat.not_lt_zero o)
  empty_iff o := by simp
  nodup := List.nodup_nil
  raw_lt o ho := absurd ho List.not_mem_nil

section
variable {m m' : SharedMemory T} {C out : Finset Nat} {raw : List Nat} {h : SharedPtr}
  {i j o c : Nat}

/-- Where a handle points. -/
theorem ptrAt_of_cellOf (hget : cellOf m.handles i = some h) : m.ptrAt i = h.ptr_ := by
  unfold SharedMemory.ptrAt
  rw [hget]
  rfl

/-- Which counter a handle has. -/
theorem countAt_of_cellOf (hget : cellOf m.handles i = some h) : m.countAt i = h.count_ := by
  unfold SharedMemory.countAt
  rw [hget]
  rfl

/-- Where a handle points is read off its own cell. -/
theorem ptrAt_congr (heq : cellOf m'.handles i = cellOf m.handles i) : m'.ptrAt i = m.ptrAt i := by
  unfold SharedMemory.ptrAt
  rw [heq]

/-- The counter of a handle is read off its own cell. -/
theorem countAt_congr (heq : cellOf m'.handles i = cellOf m.handles i) :
    m'.countAt i = m.countAt i := by
  unfold SharedMemory.countAt
  rw [heq]

/-- A handle of the program is one that was made. -/
theorem Owned.lt_of_mem (hm : Owned m C out raw) (hi : i ∈ C) : i < m.handles.length := by
  obtain ⟨h, hget, -⟩ := hm.refers i hi
  exact lt_of_cellOf hget

/-- A handle that counts and points to an object has the counter of that. -/
theorem Owned.of_ptr (hm : Owned m C out raw) (hi : i ∈ C) (hp : m.ptrAt i = some o) :
    ∃ h c object, cellOf m.handles i = some h ∧ h.ptr_ = some o ∧ h.count_ = some c ∧
      m.countAt i = some c ∧ cellOf m.objects o = some object ∧ o ∉ raw ∧
      cellOf m.counters c = some (refs m.ptrAt C o : Int) := by
  obtain ⟨h, hget, hnull | ⟨o', c, object, hp', hc, hobject, hraw, hcount⟩⟩ := hm.refers i hi
  · rw [ptrAt_of_cellOf hget, hnull.1] at hp
    cases hp
  · rw [ptrAt_of_cellOf hget, hp'] at hp
    obtain rfl := Option.some.inj hp
    exact ⟨h, c, object, hget, hp', hc, (countAt_of_cellOf hget).trans hc, hobject, hraw, hcount⟩

/-- A handle that counts and refers to a counter points to an object. -/
theorem Owned.of_count (hm : Owned m C out raw) (hi : i ∈ C) (hc : m.countAt i = some c) :
    ∃ o, m.ptrAt i = some o := by
  obtain ⟨h, hget, hnull | ⟨o, c', object, hp, -⟩⟩ := hm.refers i hi
  · rw [countAt_of_cellOf hget, hnull.2] at hc
    cases hc
  · exact ⟨o, (ptrAt_of_cellOf hget).trans hp⟩

/-- An object that exists was not deleted. -/
theorem Owned.not_deleted (hm : Owned m C out raw) {object : SharedObject T}
    (hobject : cellOf m.objects o = some object) : o ∉ m.deleted := by
  intro hdel
  have hnone := (hm.empty_iff o).mpr hdel
  rw [cellOf_eq_some_iff.mp hobject] at hnone
  cases hnone

/-- An object that was not deleted exists. -/
theorem Owned.object_of_not_deleted (hm : Owned m C out raw) (ho : o < m.objects.length)
    (hdel : o ∉ m.deleted) : ∃ object, cellOf m.objects o = some object := by
  cases hget : cellOf m.objects o with
  | some object => exact ⟨object, rfl⟩
  | none => exact absurd ((hm.empty_iff o).mp (getElem?_of_cell_none ho hget)) hdel

/-- An object that exists and was given to a handle has one. -/
theorem Owned.refs_pos (hm : Owned m C out raw) {object : SharedObject T}
    (hobject : cellOf m.objects o = some object) (hraw : o ∉ raw) : 0 < refs m.ptrAt C o := by
  refine Nat.pos_of_ne_zero fun hzero => hm.not_deleted hobject ?_
  exact (hm.deleted_iff o (lt_of_cellOf hobject)).mpr ⟨hraw, hzero⟩

/-! ### The member functions -/

/-- A number that an `int` can be is not changed. -/
theorem intValue_of_range {n : Int} (hlow : -2147483648 ≤ n) (hhigh : n ≤ 2147483647) :
    intValue n = .ok n := if_pos ⟨hlow, hhigh⟩

/-- A counter that has room is changed in place. -/
theorem addTo_of_cellOf {n d : Int} (hget : cellOf m.counters c = some n)
    (hlow : -2147483648 ≤ n + d) (hhigh : n + d ≤ 2147483647) :
    m.addTo c d = .ok { m with counters := m.counters.set c (some (n + d)) } := by
  unfold SharedMemory.addTo
  rw [cellAt_bind hget]
  show (intValue (n + d) >>= _) = _
  rw [intValue_of_range hlow hhigh]
  rfl

/-- One more handle counts, in a memory with the same objects. What is left to show is that the
counters are right, and which objects have no handle. -/
theorem Owned.insert_handle (hm : Owned m C out raw) (hj : j ∉ C) {raw' : List Nat}
    (hhandles : ∀ i, cellOf m'.handles i = if i = j then some h else cellOf m.handles i)
    (hobjects : m'.objects = m.objects) (hdeleted : m'.deleted = m.deleted)
    (hlen : m.handles.length ≤ m'.handles.length) (hraw : ∀ p, p ∈ raw' → p ∈ raw)
    (hagree : ∀ i, i ∈ C → (m.ptrAt i = h.ptr_ ↔ m.countAt i = h.count_))
    (hrefers : ∀ i k, i ∈ insert j C → cellOf m'.handles i = some k →
      Refers m' (insert j C) raw' k)
    (hfate : ∀ o, o < m.objects.length →
      (o ∈ m.deleted ↔ o ∉ raw' ∧ refs m'.ptrAt (insert j C) o = 0)) :
    Owned m' (insert j C) (out.erase j) raw' := by
  have hnew : cellOf m'.handles j = some h := by rw [hhandles, if_pos rfl]
  have hsame : ∀ i, i ∈ C → cellOf m'.handles i = cellOf m.handles i := fun i hi => by
    rw [hhandles, if_neg fun heq : i = j => hj (heq ▸ hi)]
  constructor
  case refers =>
    intro i hi
    -- The cell of the new handle is filled, the others are as they were.
    have hex : ∃ k, cellOf m'.handles i = some k := by
      rcases Finset.mem_insert.mp hi with rfl | hold
      · exact ⟨h, hnew⟩
      · obtain ⟨k, hget, -⟩ := hm.refers i hold
        exact ⟨k, (hsame i hold).trans hget⟩
    obtain ⟨k, hk⟩ := hex
    exact ⟨k, hk, hrefers i k hi hk⟩
  case agree =>
    have hpair : ∀ i, i ∈ C → (m'.ptrAt i = m'.ptrAt j ↔ m'.countAt i = m'.countAt j) := by
      intro i hi
      rw [ptrAt_congr (hsame i hi), countAt_congr (hsame i hi), ptrAt_of_cellOf hnew,
        countAt_of_cellOf hnew]
      exact hagree i hi
    intro i hi k hk
    -- Two old handles agree as before, and the new one with each of them.
    rcases Finset.mem_insert.mp hi with hi' | hi' <;> rcases Finset.mem_insert.mp hk with hk' | hk'
    · rw [hi', hk']
      exact iff_of_true rfl rfl
    · rw [hi', eq_comm, hpair k hk', eq_comm]
    · rw [hk']
      exact hpair i hi'
    · rw [ptrAt_congr (hsame i hi'), ptrAt_congr (hsame k hk'), countAt_congr (hsame i hi'),
        countAt_congr (hsame k hk')]
      exact hm.agree i hi' k hk'
  case members =>
    intro o object hobject i hi
    rw [hobjects] at hobject
    have hmem := hm.members o object hobject i hi
    by_cases hij : i = j
    · exact Finset.mem_union_left _ (hij ▸ Finset.mem_insert_self j C)
    · simpa [hij] using hmem
  case apart => rw [hobjects]; exact hm.apart
  case nodup_members => rw [hobjects]; exact hm.nodup_members
  case out_lt =>
    exact fun i hi => Nat.lt_of_lt_of_le (hm.out_lt i (Finset.mem_of_mem_erase hi)) hlen
  case deleted_iff => rw [hobjects, hdeleted]; exact hfate
  case empty_iff => rw [hobjects, hdeleted]; exact hm.empty_iff
  case nodup => rw [hdeleted]; exact hm.nodup
  case raw_lt => rw [hobjects]; exact fun p hp => hm.raw_lt p (hraw p hp)

/-- A handle that counts is null, or not, both in its pointer and in its counter. -/
theorem Owned.null_iff (hm : Owned m C out raw) (hi : i ∈ C) :
    m.ptrAt i = none ↔ m.countAt i = none := by
  obtain ⟨h, hget, hnull | ⟨o, c, object, hp, hc, -⟩⟩ := hm.refers i hi
  · rw [ptrAt_of_cellOf hget, countAt_of_cellOf hget]
    exact iff_of_true hnull.1 hnull.2
  · rw [ptrAt_of_cellOf hget, countAt_of_cellOf hget, hp, hc]
    exact iff_of_false nofun nofun

/-- A null handle comes to count. -/
theorem Owned.insert_null (hm : Owned m C out raw) (hj : j ∉ C)
    (hhandles : ∀ i, cellOf m'.handles i = if i = j then some {} else cellOf m.handles i)
    (hobjects : m'.objects = m.objects) (hcounters : m'.counters = m.counters)
    (hdeleted : m'.deleted = m.deleted) (hlen : m.handles.length ≤ m'.handles.length) :
    Owned m' (insert j C) (out.erase j) raw := by
  have hsame : ∀ i, i ∈ C → cellOf m'.handles i = cellOf m.handles i := fun i hi => by
    rw [hhandles, if_neg fun heq : i = j => hj (heq ▸ hi)]
  have hnew : cellOf m'.handles j = some {} := by rw [hhandles, if_pos rfl]
  -- A null handle points to no object.
  have hrefs : ∀ o, refs m'.ptrAt (insert j C) o = refs m.ptrAt C o := fun o => by
    rw [refs_insert_of_ne (by rw [ptrAt_of_cellOf hnew]; exact nofun)]
    exact refs_congr fun i hi => ptrAt_congr (hsame i hi)
  refine hm.insert_handle hj hhandles hobjects hdeleted hlen (fun p hp => hp)
    (fun i hi => hm.null_iff hi) (fun i k hi hk => ?_) fun o ho => ?_
  · rcases Finset.mem_insert.mp hi with heq | hold
    · rw [heq, hnew] at hk
      obtain rfl := Option.some.inj hk
      exact .inl ⟨rfl, rfl⟩
    · obtain ⟨k', hget, hrefers⟩ := hm.refers i hold
      rw [hsame i hold, hget] at hk
      obtain rfl := Option.some.inj hk
      unfold Refers at hrefers ⊢
      simpa only [hobjects, hcounters, hrefs] using hrefers
  · rw [hrefs]
    exact hm.deleted_iff o ho

/-- A handle comes to count that points to the object `o` and has the counter `c` of that, which is
the right one afterwards. -/
theorem Owned.insert_ptr (hm : Owned m C out raw) (hj : j ∉ C) {raw' : List Nat}
    (hhandles : ∀ i, cellOf m'.handles i =
      if i = j then some ⟨some o, some c⟩ else cellOf m.handles i)
    (hobjects : m'.objects = m.objects) (hdeleted : m'.deleted = m.deleted)
    (hlen : m.handles.length ≤ m'.handles.length)
    (hcounter : cellOf m'.counters c = some ((refs m.ptrAt C o + 1 : Nat) : Int))
    (hother : ∀ i, i ∈ C → ∀ c', c' ≠ c → m.countAt i = some c' →
      cellOf m'.counters c' = cellOf m.counters c')
    (hagree : ∀ i, i ∈ C → (m.ptrAt i = some o ↔ m.countAt i = some c))
    {object : SharedObject T} (hobject : cellOf m.objects o = some object)
    (hraw : ∀ p, p ∈ raw' ↔ p ∈ raw ∧ p ≠ o) :
    Owned m' (insert j C) (out.erase j) raw' := by
  have hsame : ∀ i, i ∈ C → cellOf m'.handles i = cellOf m.handles i := fun i hi => by
    rw [hhandles, if_neg fun heq : i = j => hj (heq ▸ hi)]
  have hnew : cellOf m'.handles j = some ⟨some o, some c⟩ := by rw [hhandles, if_pos rfl]
  have hptr : m'.ptrAt j = some o := ptrAt_of_cellOf hnew
  have hold : ∀ o', refs m'.ptrAt C o' = refs m.ptrAt C o' := fun o' =>
    refs_congr fun i hi => ptrAt_congr (hsame i hi)
  have hrefs : refs m'.ptrAt (insert j C) o = refs m.ptrAt C o + 1 := by
    rw [refs_insert_of_ptr hj hptr, hold]
  have hrefs_ne : ∀ o', o' ≠ o → refs m'.ptrAt (insert j C) o' = refs m.ptrAt C o' := by
    intro o' hne
    rw [refs_insert_of_ne (by rw [hptr]; exact fun heq => hne (Option.some.inj heq).symm), hold]
  refine hm.insert_handle hj hhandles hobjects hdeleted hlen (fun p hp => ((hraw p).mp hp).1) hagree
    (fun i k hi hk => ?_) fun o' ho' => ?_
  · rcases Finset.mem_insert.mp hi with heq | hi'
    · rw [heq, hnew] at hk
      obtain rfl := Option.some.inj hk
      refine .inr ⟨o, c, object, rfl, rfl, hobjects ▸ hobject, ?_, ?_⟩
      · exact fun hn => ((hraw o).mp hn).2 rfl
      · rw [hcounter, hrefs]
    · obtain ⟨k', hget, hnull | ⟨o', c', object', hp, hc, hobject', hraw', hcount'⟩⟩ :=
        hm.refers i hi'
      · rw [hsame i hi', hget] at hk
        obtain rfl := Option.some.inj hk
        exact .inl hnull
      · rw [hsame i hi', hget] at hk
        obtain rfl := Option.some.inj hk
        refine .inr ⟨o', c', object', hp, hc, hobjects ▸ hobject',
          fun hn => hraw' ((hraw o').mp hn).1, ?_⟩
        have hiff := hagree i hi'
        rw [ptrAt_of_cellOf hget, countAt_of_cellOf hget, hp, hc] at hiff
        by_cases ho : o' = o
        · subst ho
          obtain rfl := Option.some.inj (hiff.mp rfl)
          rw [hcounter, hrefs]
        · -- The handles of other objects have other counters.
          have hne : c' ≠ c := fun heq => ho (Option.some.inj (hiff.mpr (congrArg some heq)))
          rw [hother i hi' c' hne ((countAt_of_cellOf hget).trans hc), hcount', hrefs_ne o' ho]
  · rw [hraw]
    by_cases ho : o' = o
    · -- The object exists, and has a handle now.
      subst ho
      rw [hrefs]
      exact iff_of_false (hm.not_deleted hobject) fun hn => nomatch hn.2
    · rw [hrefs_ne o' ho, hm.deleted_iff o' ho']
      simp [ho]

/-- The last part of the copy constructor and of `operator=`: a handle at `j` is a copy of one that
counts. -/
theorem Owned.acquire (hm : Owned m C out raw) (hi : i ∈ C) (hget : cellOf m.handles i = some h)
    (hj : j ∉ C) (hroom : C.card + 1 < 2147483648)
    (hhandles : ∀ i, cellOf m'.handles i = if i = j then some h else cellOf m.handles i)
    (hobjects : m'.objects = m.objects) (hcounters : m'.counters = m.counters)
    (hdeleted : m'.deleted = m.deleted) (hlen : m.handles.length ≤ m'.handles.length) :
    ∃ m'', m'.acquire h = .ok m'' ∧ m''.handles = m'.handles ∧
      Owned m'' (insert j C) (out.erase j) raw ∧ m''.objects = m.objects := by
  obtain ⟨h', hget', hnull | ⟨o, c, object, hp, hc, hobject, hraw, hcount⟩⟩ := hm.refers i hi
  · rw [hget] at hget'
    obtain rfl := Option.some.inj hget'
    obtain ⟨ptr, count⟩ := h
    obtain ⟨rfl, rfl⟩ := hnull
    exact ⟨m', rfl, rfl, hm.insert_null hj hhandles hobjects hcounters hdeleted hlen, hobjects⟩
  · rw [hget] at hget'
    obtain rfl := Option.some.inj hget'
    obtain ⟨ptr, count⟩ := h
    obtain rfl : ptr = some o := hp
    obtain rfl : count = some c := hc
    -- The counter is at most the number of handles, so it does not overflow.
    have hle : refs m.ptrAt C o ≤ C.card := refs_le_card
    have hbound := lt_of_cellOf hcount
    rw [← hcounters] at hcount hbound
    refine ⟨_, addTo_of_cellOf hcount (by omega) (by omega), rfl, ?_, hobjects⟩
    have hraw' : ∀ p, p ∈ raw ↔ p ∈ raw ∧ p ≠ o := fun p =>
      ⟨fun hp => ⟨hp, fun heq => hraw (heq ▸ hp)⟩, And.left⟩
    -- The copy has the pointer and the counter of a handle that counts already.
    have hagree : ∀ k, k ∈ C → (m.ptrAt k = some o ↔ m.countAt k = some c) := by
      intro k hk
      have hiff := hm.agree k hk i hi
      rwa [ptrAt_of_cellOf hget, countAt_of_cellOf hget] at hiff
    refine hm.insert_ptr hj hhandles hobjects hdeleted hlen ?_ ?_ hagree hobject hraw'
    · show cellOf (m'.counters.set c _) c = _
      rw [cellOf_set hbound, if_pos rfl]
      rfl
    · intro k _ c' hne _
      show cellOf (m'.counters.set c _) c' = _
      rw [cellOf_set hbound, if_neg hne, hcounters]

/-- Null handles that come to count do not change the number of handles of any object. -/
theorem refs_union_null {ptr ptr' : Nat → Option Nat} {D : Finset Nat}
    (hsame : ∀ i, i ∈ C → ptr' i = ptr i) (hnull : ∀ i, i ∈ D → ptr' i = none) :
    refs ptr' (C ∪ D) o = refs ptr C o := by
  have hnone : D.filter (fun i => ptr' i = some o) = ∅ := by
    refine Finset.filter_eq_empty_iff.mpr fun i hi => ?_
    rw [hnull i hi]
    exact nofun
  rw [← refs_congr hsame]
  unfold refs
  rw [Finset.filter_union, hnone, Finset.union_empty]

/-- `new`: one more object, with null handles among its members. -/
theorem Owned.newObject (hm : Owned m C ∅ raw) (value : T) (members : Nat) :
    Owned (m.newObject value members).2
      (C ∪ Finset.Ico m.handles.length (m.handles.length + members)) ∅
      (raw ++ [m.objects.length]) := by
  have hcell : ∀ i, cellOf (m.newObject value members).2.handles i =
      if m.handles.length ≤ i ∧ i < m.handles.length + members then some {}
      else cellOf m.handles i := fun i =>
    cellOf_append_replicate members (some ({} : SharedPtr))
  have hsame : ∀ i, i ∈ C →
      cellOf (m.newObject value members).2.handles i = cellOf m.handles i := by
    intro i hi
    have hlt := hm.lt_of_mem hi
    rw [hcell, if_neg (by omega)]
  have hnew : ∀ i, i ∈ Finset.Ico m.handles.length (m.handles.length + members) →
      cellOf (m.newObject value members).2.handles i = some {} := by
    intro i hi
    rw [hcell, if_pos (Finset.mem_Ico.mp hi)]
  have hrefs : ∀ o, refs (m.newObject value members).2.ptrAt
      (C ∪ Finset.Ico m.handles.length (m.handles.length + members)) o = refs m.ptrAt C o :=
    fun o => refs_union_null (fun i hi => ptrAt_congr (hsame i hi))
      fun i hi => ptrAt_of_cellOf (hnew i hi)
  have hobjects : ∀ o, cellOf (m.newObject value members).2.objects o =
      if o = m.objects.length then some ⟨value, List.range' m.handles.length members⟩
      else cellOf m.objects o := fun o => cellOf_concat _
  have hfresh : m.objects.length ∉ raw := fun hn => Nat.lt_irrefl _ (hm.raw_lt _ hn)
  have hraw : ∀ o, o ∈ raw ++ [m.objects.length] ↔ o ∈ raw ∨ o = m.objects.length := by
    simp
  have hold : ∀ o object i, cellOf m.objects o = some object → i ∈ object.members →
      i < m.handles.length := by
    intro o object i hobject hi
    have hmem := hm.members o object hobject i hi
    rw [Finset.union_empty] at hmem
    exact hm.lt_of_mem hmem
  have hmembers : ∀ o object i, cellOf (m.newObject value members).2.objects o = some object →
      i ∈ object.members → (o = m.objects.length ∧ m.handles.length ≤ i ∧
        i < m.handles.length + members) ∨ (cellOf m.objects o = some object ∧
          i < m.handles.length) := by
    intro o object i hobject hi
    rw [hobjects] at hobject
    by_cases ho : o = m.objects.length
    · rw [if_pos ho] at hobject
      obtain rfl := Option.some.inj hobject
      exact .inl ⟨ho, List.mem_range'_1.mp hi⟩
    · rw [if_neg ho] at hobject
      exact .inr ⟨hobject, hold o object i hobject hi⟩
  constructor
  case refers =>
    intro i hi
    rcases Finset.mem_union.mp hi with hi | hi
    · obtain ⟨h, hget, hnull | ⟨o, c, object, hp, hc, hobject, hraw', hcount⟩⟩ := hm.refers i hi
      · exact ⟨h, (hsame i hi).trans hget, .inl hnull⟩
      · have hlt := lt_of_cellOf hobject
        refine ⟨h, (hsame i hi).trans hget, .inr ⟨o, c, object, hp, hc, ?_, ?_, ?_⟩⟩
        · rw [hobjects, if_neg (by omega), hobject]
        · rw [hraw]
          rintro (hn | rfl)
          · exact hraw' hn
          · exact Nat.lt_irrefl _ hlt
        · rw [hrefs]
          exact hcount
    · exact ⟨{}, hnew i hi, .inl ⟨rfl, rfl⟩⟩
  case agree =>
    have hptr : ∀ i, i ∈ Finset.Ico m.handles.length (m.handles.length + members) →
        (m.newObject value members).2.ptrAt i = none := fun i hi => ptrAt_of_cellOf (hnew i hi)
    have hcount : ∀ i, i ∈ Finset.Ico m.handles.length (m.handles.length + members) →
        (m.newObject value members).2.countAt i = none := fun i hi => countAt_of_cellOf (hnew i hi)
    intro i hi k hk
    rcases Finset.mem_union.mp hi with hi | hi <;> rcases Finset.mem_union.mp hk with hk | hk
    · rw [ptrAt_congr (hsame i hi), ptrAt_congr (hsame k hk), countAt_congr (hsame i hi),
        countAt_congr (hsame k hk)]
      exact hm.agree i hi k hk
    · rw [hptr k hk, hcount k hk, ptrAt_congr (hsame i hi), countAt_congr (hsame i hi)]
      exact hm.null_iff hi
    · rw [hptr i hi, hcount i hi, ptrAt_congr (hsame k hk), countAt_congr (hsame k hk), eq_comm,
        hm.null_iff hk, eq_comm]
    · rw [hptr i hi, hptr k hk, hcount i hi, hcount k hk]
  case members =>
    intro o object hobject i hi
    rw [Finset.union_empty]
    rcases hmembers o object i hobject hi with ⟨-, hrange⟩ | ⟨hobject', -⟩
    · exact Finset.mem_union_right _ (Finset.mem_Ico.mpr hrange)
    · have hmem := hm.members o object hobject' i hi
      rw [Finset.union_empty] at hmem
      exact Finset.mem_union_left _ hmem
  case apart =>
    intro o o' object object' i hobject hobject' hi hi'
    rcases hmembers o object i hobject hi with ⟨ho, hle, -⟩ | ⟨hobj, hlt⟩ <;>
      rcases hmembers o' object' i hobject' hi' with ⟨ho', hle', -⟩ | ⟨hobj', hlt'⟩
    · exact ho.trans ho'.symm
    · omega
    · omega
    · exact hm.apart o o' object object' i hobj hobj' hi hi'
  case nodup_members =>
    intro o object hobject
    rw [hobjects] at hobject
    by_cases ho : o = m.objects.length
    · rw [if_pos ho] at hobject
      obtain rfl := Option.some.inj hobject
      exact List.nodup_range'
    · rw [if_neg ho] at hobject
      exact hm.nodup_members o object hobject
  case out_lt => exact fun i hi => absurd hi (Finset.notMem_empty i)
  case deleted_iff =>
    intro o ho
    show o ∈ m.deleted ↔ _
    have hlen : (m.newObject value members).2.objects.length = m.objects.length + 1 := by
      simp [SharedMemory.newObject]
    rw [hlen] at ho
    rw [hrefs, hraw]
    by_cases heq : o = m.objects.length
    · -- The new object was not given to a handle yet.
      refine iff_of_false (fun hdel => ?_) fun hn => hn.1 (.inr heq)
      have hlt := (List.getElem?_eq_some_iff.mp ((hm.empty_iff o).mpr hdel)).1
      omega
    · rw [hm.deleted_iff o (by omega)]
      simp [heq]
  case empty_iff =>
    intro o
    show (m.objects ++ [some _])[o]? = some none ↔ o ∈ m.deleted
    rw [← hm.empty_iff, List.getElem?_append]
    by_cases ho : o < m.objects.length
    · rw [if_pos ho]
    · rw [if_neg ho, List.getElem?_eq_none (Nat.not_lt.mp ho)]
      cases hk : o - m.objects.length with
      | zero => simp
      | succ k => simp
  case nodup => exact hm.nodup
  case raw_lt =>
    intro o ho
    have hlen : (m.newObject value members).2.objects.length = m.objects.length + 1 := by
      simp [SharedMemory.newObject]
    rw [hlen]
    rcases (hraw o).mp ho with ho | rfl
    · exact Nat.lt_succ_of_lt (hm.raw_lt o ho)
    · exact Nat.lt_succ_self _

/-- The constructor, for a null pointer or one that no handle has. -/
theorem Owned.construct (hm : Owned m C ∅ raw) {ptr : Option Nat}
    (hptr : ∀ p, ptr = some p → p ∈ raw) :
    Owned (SharedPtr.construct m ptr) (insert m.handles.length C) ∅
        (raw.filter fun p => ptr ≠ some p) := by
  have hj : m.handles.length ∉ C := fun hmem => Nat.lt_irrefl _ (hm.lt_of_mem hmem)
  have hlen : ∀ h : SharedPtr, m.handles.length ≤ (m.handles ++ [some h]).length := by simp
  cases ptr with
  | none =>
    have hraw : raw.filter (fun p => (none : Option Nat) ≠ some p) = raw := by simp
    rw [hraw]
    exact hm.insert_null hj (fun i => cellOf_concat _) rfl rfl rfl (hlen _)
  | some p =>
    have hp := hptr p rfl
    have hlt := hm.raw_lt p hp
    have hzero : refs m.ptrAt C p = 0 := by
      refine refs_eq_zero_iff.mpr fun i hi hpi => ?_
      obtain ⟨h, c, object, -, -, -, -, -, hraw, -⟩ := hm.of_ptr hi hpi
      exact hraw hp
    -- The pointer is one that `new` returned, so the object exists.
    obtain ⟨object, hobject⟩ := hm.object_of_not_deleted hlt fun hdel =>
      ((hm.deleted_iff p hlt).mp hdel).1 hp
    -- No handle has the address of the next counter.
    have hfresh : ∀ i, i ∈ C → ∀ c, m.countAt i = some c → c < m.counters.length := by
      intro i hi c hc
      obtain ⟨o, ho⟩ := hm.of_count hi hc
      obtain ⟨h, c', -, -, -, -, hc', -, -, hcount⟩ := hm.of_ptr hi ho
      rw [hc] at hc'
      obtain rfl := Option.some.inj hc'
      exact lt_of_cellOf hcount
    refine hm.insert_ptr (o := p) (c := m.counters.length) hj (fun i => cellOf_concat _) rfl rfl
      (hlen _) ?_ ?_ (fun i hi => ?_) hobject fun q => ?_
    · show cellOf (m.counters ++ [some 1]) m.counters.length = _
      rw [cellOf_concat, if_pos rfl, hzero]
      rfl
    · intro i hi c hne hc
      show cellOf (m.counters ++ [some 1]) c = _
      rw [cellOf_concat, if_neg hne]
    · refine iff_of_false (refs_eq_zero_iff.mp hzero i hi) fun hc => ?_
      exact Nat.lt_irrefl _ (hfresh i hi _ hc)
    · rw [List.mem_filter, decide_eq_true_iff]
      exact and_congr_right fun _ => ⟨fun hne heq => hne (congrArg some heq.symm),
        fun hne heq => hne (Option.some.inj heq).symm⟩

end

end SharedPtr

end KernelEventsTrace.Driver.Std
