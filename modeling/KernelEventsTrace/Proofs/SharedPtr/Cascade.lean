import KernelEventsTrace.Proofs.SharedPtr.Owned

/-!
# `KernelEventsTrace.Proofs.SharedPtr.Cascade`: what one `Release` sets off

`Release` of the last handle of an object deletes it, its destructor releases the handles among its
members, and so on. `Cascade` is the invariant while this goes on, seen from the memory `m₀` that it
started in. `C` has the handles that still count, and `busy` the objects whose destructors run. `Z`
has the objects that may be deleted. All that is asked of it is that an object is in `Z` if all its
handles are the handle `this` that was released first, or members of objects in `Z`.

`Cascade.release` is the specification of `release`. Its induction is on the bound of the depth,
with one for the loop over the members inside (`Cascade.destroyAll`). The bound is large enough
because each level takes the last handle from one more object (`targets`).
-/

set_option autoImplicit false

namespace KernelEventsTrace.Driver.Std.SharedPtr

variable {T : Type}

/-! ### The invariant -/

section
variable (m₀ : SharedMemory T) (C₀ : Finset Nat) (raw : List Nat) (this : Nat) (Z : Nat → Prop)

/-- The handle is a member of an object that may be deleted. -/
def InZ (j : Nat) : Prop := ∃ o object, cellOf m₀.objects o = some object ∧ Z o ∧ j ∈ object.members

/-- What is asked of the objects that may be deleted. The handle that is released first is no member
of one. -/
structure Closed : Prop where
  falls : ∀ o, 0 < refs m₀.ptrAt C₀ o →
    (∀ i, i ∈ C₀ → m₀.ptrAt i = some o → i = this ∨ InZ m₀ Z i) → Z o
  this_notMem : ¬ InZ m₀ Z this

/-- The memory while a `Release` goes on. -/
structure Cascade (m : SharedMemory T) (C busy : Finset Nat) : Prop where
  sub : C ⊆ C₀
  handles : ∀ j, j ∈ C → cellOf m.handles j = cellOf m₀.handles j
  counters : ∀ j, j ∈ C → ∀ o c, m₀.ptrAt j = some o → m₀.countAt j = some c →
    cellOf m.counters c = some (refs m₀.ptrAt C o : Int)
  objects : ∀ o, cellOf m.objects o = cellOf m₀.objects o ∨ (cellOf m.objects o = none ∧ Z o)
  alive : ∀ o, 0 < refs m₀.ptrAt C o ∨ o ∈ raw ∨ o ∈ busy → cellOf m.objects o = cellOf m₀.objects o
  dead : ∀ o object, cellOf m.objects o = some object → o ∉ raw → o ∉ busy →
    0 < refs m₀.ptrAt C o
  gone : ∀ j, j ∈ C₀ → j ∉ C → j = this ∨ InZ m₀ Z j
  members : ∀ o object, cellOf m.objects o = some object → o ∉ busy → ∀ j, j ∈ object.members →
    j ∈ C ∨ j = this
  busy : ∀ o, o ∈ busy → Z o ∧ refs m₀.ptrAt C o = 0 ∧ o ∉ raw
  length_objects : m.objects.length = m₀.objects.length
  length_handles : m.handles.length = m₀.handles.length
  empty_iff : ∀ o, m.objects[o]? = some none ↔ o ∈ m.deleted
  nodup : m.deleted.Nodup

/-- What the release of the handles in `out` does, from `m` with the handles `C` that count to `m'`
with `C'`. Other handles are lost only if they are members of objects that were deleted. -/
structure Releases (m m' : SharedMemory T) (C C' busy out : Finset Nat) : Prop where
  cascade : Cascade m₀ C₀ raw this Z m' C' busy
  sub : C' ⊆ C \ out
  lost : ∀ j, j ∈ C → j ∉ C' → j ∉ out → cellOf m'.handles j = none ∧
    ∃ o object, cellOf m₀.objects o = some object ∧ o ∉ busy ∧ Z o ∧ j ∈ object.members
  frame : ∀ j, j ∉ C → cellOf m'.handles j = cellOf m.handles j
  counters : ∀ c, (∀ j, j ∈ C → m₀.countAt j ≠ some c) → cellOf m'.counters c = cellOf m.counters c

end

variable {m₀ m m' m₁ m₂ : SharedMemory T} {C₀ C C₁ C₂ busy out out' : Finset Nat} {raw : List Nat}
  {this i o c : Nat} {Z : Nat → Prop}

/-- A `Release` starts with all handles. -/
theorem Owned.cascade (hm : Owned m₀ C₀ ∅ raw) : Cascade m₀ C₀ raw this Z m₀ C₀ ∅ where
  sub := Finset.Subset.refl C₀
  handles j hj := rfl
  counters j hj o c hp hc := by
    obtain ⟨h, c', object, -, -, -, hc', -, -, hcount⟩ := hm.of_ptr hj hp
    rw [hc] at hc'
    obtain rfl := Option.some.inj hc'
    exact hcount
  objects o := .inl rfl
  alive o ho := rfl
  dead o object hobject hraw hbusy := hm.refs_pos hobject hraw
  gone j hj hn := absurd hj hn
  members o object hobject hbusy j hj := by
    have hmem := hm.members o object hobject j hj
    rw [Finset.union_empty] at hmem
    exact .inl hmem
  busy o ho := absurd ho (Finset.notMem_empty o)
  length_objects := rfl
  length_handles := rfl
  empty_iff := hm.empty_iff
  nodup := hm.nodup

/-- One release after another. -/
theorem Releases.trans (h₁ : Releases m₀ C₀ raw this Z m m₁ C C₁ busy out)
    (h₂ : Releases m₀ C₀ raw this Z m₁ m₂ C₁ C₂ busy out') :
    Releases m₀ C₀ raw this Z m m₂ C C₂ busy (out ∪ out') where
  cascade := h₂.cascade
  sub j hj := by
    have hj₁ := Finset.mem_sdiff.mp (h₂.sub hj)
    have hj₀ := Finset.mem_sdiff.mp (h₁.sub hj₁.1)
    exact Finset.mem_sdiff.mpr ⟨hj₀.1, fun hmem => (Finset.mem_union.mp hmem).elim hj₀.2 hj₁.2⟩
  lost j hj hn hout' := by
    rw [Finset.mem_union, not_or] at hout'
    by_cases hj₁ : j ∈ C₁
    · exact h₂.lost j hj₁ hn hout'.2
    · obtain ⟨hnone, howner⟩ := h₁.lost j hj hj₁ hout'.1
      exact ⟨(h₂.frame j hj₁).trans hnone, howner⟩
  frame j hj := by
    have hj₁ : j ∉ C₁ := fun hmem => hj (Finset.mem_sdiff.mp (h₁.sub hmem)).1
    exact (h₂.frame j hj₁).trans (h₁.frame j hj)
  counters c hc := by
    have hc₁ : ∀ j, j ∈ C₁ → m₀.countAt j ≠ some c := fun j hj =>
      hc j (Finset.mem_sdiff.mp (h₁.sub hj)).1
    exact (h₂.counters c hc₁).trans (h₁.counters c hc)

/-- A handle stops to count. An object that loses its last handle in this way has to be one whose
destructor runs next. -/
theorem Cascade.erase (h : Cascade m₀ C₀ raw this Z m C busy)
    (howner : i = this ∨ InZ m₀ Z i)
    (hmember : ∀ o object, cellOf m.objects o = some object → o ∉ busy → i ∈ object.members →
      i = this)
    (hhandles : m'.handles = m.handles) (hobjects : m'.objects = m.objects)
    (hdeleted : m'.deleted = m.deleted) {busy' : Finset Nat} (hsub : busy ⊆ busy')
    (hcounters : ∀ j, j ∈ C.erase i → ∀ o c, m₀.ptrAt j = some o → m₀.countAt j = some c →
      cellOf m'.counters c = some (refs m₀.ptrAt (C.erase i) o : Int))
    (hnew : ∀ o, o ∈ busy' → o ∉ busy →
      Z o ∧ refs m₀.ptrAt (C.erase i) o = 0 ∧ o ∉ raw ∧ cellOf m.objects o = cellOf m₀.objects o)
    (hlast : ∀ o, 0 < refs m₀.ptrAt C o → refs m₀.ptrAt (C.erase i) o = 0 → o ∈ busy') :
    Cascade m₀ C₀ raw this Z m' (C.erase i) busy' := by
  have herase : C.erase i ⊆ C := Finset.erase_subset i C
  constructor
  case sub => exact herase.trans h.sub
  case handles =>
    intro j hj
    rw [hhandles]
    exact h.handles j (herase hj)
  case counters => exact hcounters
  case objects => rw [hobjects]; exact h.objects
  case alive =>
    intro o ho
    rw [hobjects]
    -- An object that still has a handle had one before.
    rcases ho with hpos | hraw | hbusy
    · exact h.alive o (.inl (Nat.lt_of_lt_of_le hpos (refs_mono herase)))
    · exact h.alive o (.inr (.inl hraw))
    · by_cases hold : o ∈ busy
      · exact h.alive o (.inr (.inr hold))
      · exact (hnew o hbusy hold).2.2.2
  case dead =>
    intro o object hobject hraw hbusy
    rw [hobjects] at hobject
    -- It had a handle before. Without one it would be among those that die now.
    have hpos := h.dead o object hobject hraw fun hmem => hbusy (hsub hmem)
    exact Nat.pos_of_ne_zero fun hzero => hbusy (hlast o hpos hzero)
  case gone =>
    intro j hj hn
    by_cases hji : j = i
    · rw [hji]
      exact howner
    · exact h.gone j hj fun hmem => hn (Finset.mem_erase.mpr ⟨hji, hmem⟩)
  case members =>
    intro o object hobject hbusy j hj
    rw [hobjects] at hobject
    have hold : o ∉ busy := fun hmem => hbusy (hsub hmem)
    -- Only the handle itself stops to count.
    rcases h.members o object hobject hold j hj with hmem | hthis
    · by_cases hji : j = i
      · exact .inr (hji ▸ hmember o object hobject hold (hji ▸ hj))
      · exact .inl (Finset.mem_erase.mpr ⟨hji, hmem⟩)
    · exact .inr hthis
  case busy =>
    intro o hbusy
    by_cases hold : o ∈ busy
    · obtain ⟨hz, hzero, hraw⟩ := h.busy o hold
      exact ⟨hz, Nat.le_zero.mp (hzero ▸ refs_mono herase), hraw⟩
    · obtain ⟨hz, hzero, hraw, -⟩ := hnew o hbusy hold
      exact ⟨hz, hzero, hraw⟩
  case length_objects => rw [hobjects]; exact h.length_objects
  case length_handles => rw [hhandles]; exact h.length_handles
  case empty_iff => rw [hobjects, hdeleted]; exact h.empty_iff
  case nodup => rw [hdeleted]; exact h.nodup

/-- A handle that does not count is taken away, or written. -/
theorem Cascade.setHandle (h : Cascade m₀ C₀ raw this Z m C busy) (hi : i ∉ C)
    (hlt : i < m.handles.length) (x : Option SharedPtr) :
    Cascade m₀ C₀ raw this Z (m.setHandle i x) C busy where
  sub := h.sub
  handles j hj := by
    show cellOf (m.handles.set i x) j = _
    rw [cellOf_set hlt, if_neg fun heq : j = i => hi (heq ▸ hj)]
    exact h.handles j hj
  counters := h.counters
  objects := h.objects
  alive := h.alive
  dead := h.dead
  gone := h.gone
  members := h.members
  busy := h.busy
  length_objects := h.length_objects
  length_handles := (List.length_set).trans h.length_handles
  empty_iff := h.empty_iff
  nodup := h.nodup

/-- The memory of an object whose destructor has run is freed. -/
theorem Cascade.freeObject (h : Cascade m₀ C₀ raw this Z m C (insert o busy)) (ho : o ∉ busy)
    {object : SharedObject T} (hobject : cellOf m.objects o = some object) :
    Cascade m₀ C₀ raw this Z
      { m with objects := m.objects.set o none, deleted := m.deleted ++ [o] } C busy := by
  have hlt := lt_of_cellOf hobject
  have hcell : ∀ p, cellOf (m.objects.set o none) p = if p = o then none else cellOf m.objects p :=
    fun p => cellOf_set hlt none
  obtain ⟨hz, hzero, hraw⟩ := h.busy o (Finset.mem_insert_self o busy)
  -- So it is deleted for the first time.
  have hlive : o ∉ m.deleted := by
    rw [← h.empty_iff, cellOf_eq_some_iff.mp hobject]
    exact nofun
  constructor
  case sub => exact h.sub
  case handles => exact h.handles
  case counters => exact h.counters
  case objects =>
    intro p
    show cellOf (m.objects.set o none) p = _ ∨ (cellOf (m.objects.set o none) p = _ ∧ _)
    rw [hcell]
    by_cases hp : p = o
    · rw [if_pos hp]
      exact .inr ⟨rfl, hp ▸ hz⟩
    · rw [if_neg hp]
      exact h.objects p
  case alive =>
    intro p hp
    show cellOf (m.objects.set o none) p = _
    have hne : p ≠ o := by
      rintro rfl
      -- The object has no handle left, is not with the program, and is freed by this call only.
      rcases hp with hpos | hmem | hmem
      · omega
      · exact hraw hmem
      · exact ho hmem
    rw [hcell, if_neg hne]
    exact h.alive p (hp.imp_right fun hp => hp.imp_right Finset.mem_insert_of_mem)
  case dead =>
    intro p object' hobject' hp hbusy
    have hne : p ≠ o := by
      rintro rfl
      rw [hcell, if_pos rfl] at hobject'
      cases hobject'
    rw [hcell, if_neg hne] at hobject'
    exact h.dead p object' hobject' hp fun hmem => (Finset.mem_insert.mp hmem).elim hne hbusy
  case gone => exact h.gone
  case members =>
    intro p object' hobject' hbusy
    have hne : p ≠ o := by
      rintro rfl
      rw [hcell, if_pos rfl] at hobject'
      cases hobject'
    rw [hcell, if_neg hne] at hobject'
    exact h.members p object' hobject' fun hmem => (Finset.mem_insert.mp hmem).elim hne hbusy
  case busy => exact fun p hp => h.busy p (Finset.mem_insert_of_mem hp)
  case length_objects => exact (List.length_set).trans h.length_objects
  case length_handles => exact h.length_handles
  case empty_iff =>
    intro p
    show (m.objects.set o none)[p]? = _ ↔ p ∈ m.deleted ++ [o]
    rw [List.mem_append, List.mem_singleton]
    by_cases hp : p = o
    · rw [hp, List.getElem?_set_self hlt]
      exact iff_of_true rfl (.inr rfl)
    · rw [List.getElem?_set_ne (Ne.symm hp), h.empty_iff]
      exact ⟨.inl, fun hmem => hmem.resolve_right hp⟩
  case nodup =>
    exact List.nodup_append.mpr ⟨h.nodup, List.nodup_singleton o, fun p hp q hq heq =>
      hlive (by rw [← List.mem_singleton.mp hq, ← heq]; exact hp)⟩

/-- A counter that no handle has any more is deleted. -/
theorem Cascade.deleteCounter (h : Cascade m₀ C₀ raw this Z m C busy)
    (hlt : c < m.counters.length) (hc : ∀ j, j ∈ C → m₀.countAt j ≠ some c) :
    Cascade m₀ C₀ raw this Z { m with counters := m.counters.set c none } C busy where
  sub := h.sub
  handles := h.handles
  counters j hj o c' hp hc' := by
    show cellOf (m.counters.set c none) c' = _
    rw [cellOf_set hlt, if_neg fun heq : c' = c => hc j hj (heq ▸ hc')]
    exact h.counters j hj o c' hp hc'
  objects := h.objects
  alive := h.alive
  dead := h.dead
  gone := h.gone
  members := h.members
  busy := h.busy
  length_objects := h.length_objects
  length_handles := h.length_handles
  empty_iff := h.empty_iff
  nodup := h.nodup

/-! ### The depth of the destructors -/

/-- The objects that handles point to. -/
def targets (ptr : Nat → Option Nat) (C : Finset Nat) : Finset (Option Nat) :=
  (C.image ptr).erase none

/-- The objects that some handle points to. -/
theorem mem_targets_iff {ptr : Nat → Option Nat} :
    some o ∈ targets ptr C ↔ 0 < refs ptr C o := by
  unfold targets
  rw [Finset.mem_erase, Finset.mem_image, refs_pos_iff]
  exact and_iff_right nofun

/-- Fewer handles point to no more objects. -/
theorem card_targets_mono {ptr : Nat → Option Nat} (hsub : C₁ ⊆ C) :
    (targets ptr C₁).card ≤ (targets ptr C).card :=
  Finset.card_le_card (Finset.erase_subset_erase _ (Finset.image_subset_image hsub))

/-- An object that loses its last handle is a target no more. -/
theorem card_targets_lt {ptr : Nat → Option Nat} (hsub : C₁ ⊆ C) (hpos : 0 < refs ptr C o)
    (hzero : refs ptr C₁ o = 0) : (targets ptr C₁).card < (targets ptr C).card := by
  refine Finset.card_lt_card ⟨Finset.erase_subset_erase _ (Finset.image_subset_image hsub), ?_⟩
  intro hback
  have hmem := mem_targets_iff.mp (hback (mem_targets_iff.mpr hpos))
  omega

/-- There are no more targets than objects. -/
theorem Owned.card_targets_le (hm : Owned m₀ C₀ ∅ raw) :
    (targets m₀.ptrAt C₀).card ≤ m₀.objects.length := by
  have hsub : targets m₀.ptrAt C₀ ⊆ (Finset.range m₀.objects.length).image some := by
    intro p hp
    cases p with
    | none => exact absurd hp (Finset.notMem_erase _ _)
    | some o =>
      obtain ⟨i, hi, hptr⟩ := refs_pos_iff.mp (mem_targets_iff.mp hp)
      obtain ⟨h, c, object, -, -, -, -, hobject, -⟩ := hm.of_ptr hi hptr
      exact Finset.mem_image_of_mem some (Finset.mem_range.mpr (lt_of_cellOf hobject))
  calc (targets m₀.ptrAt C₀).card
      ≤ ((Finset.range m₀.objects.length).image some).card := Finset.card_le_card hsub
    _ ≤ (Finset.range m₀.objects.length).card := Finset.card_image_le
    _ = m₀.objects.length := Finset.card_range _

/-! ### `Release` -/

section
variable {depth : Nat} {h h' : SharedPtr} {n : Int} {object object' : SharedObject T}

/-- A null handle has nothing to release. -/
theorem release_null (hget : cellOf m.handles i = some h) (hnull : h.count_ = none) :
    m.release (depth + 1) i = .ok m := by
  unfold SharedMemory.release SharedMemory.handleAt
  rw [cellAt_bind hget, hnull]
  rfl

/-- There are handles left. -/
theorem release_shared (hget : cellOf m.handles i = some h) (hc : h.count_ = some c)
    (hadd : m.addTo c (-1) = .ok m₁) (hcount : cellOf m₁.counters c = some n) (hn : n ≠ 0) :
    m.release (depth + 1) i = .ok m₁ := by
  unfold SharedMemory.release SharedMemory.handleAt
  rw [cellAt_bind hget, hc]
  show (m.addTo c (-1) >>= _) = _
  rw [hadd]
  show (cellAt .deleted m₁.counters c >>= _) = _
  rw [cellAt_bind hcount]
  exact if_neg hn

/-- The last handle. The memory `m₂` is the one after the destructors of the members. -/
theorem release_last (hget : cellOf m.handles i = some h) (hc : h.count_ = some c)
    (hp : h.ptr_ = some o) (hadd : m.addTo c (-1) = .ok m₁)
    (hcount : cellOf m₁.counters c = some 0) (hobject : cellOf m₁.objects o = some object)
    (hrun : object.members.reverse.foldlM (SharedMemory.destroy depth) m₁ = .ok m₂)
    (hobject' : cellOf m₂.objects o = some object') (hget' : cellOf m₂.handles i = some h')
    (hc' : h'.count_ = some c) (hcount' : cellOf m₂.counters c = some n) :
    m.release (depth + 1) i = .ok
      (SharedMemory.setHandle
        { m₂ with objects := m₂.objects.set o none, deleted := m₂.deleted ++ [o],
                  counters := m₂.counters.set c none } i (some {})) := by
  unfold SharedMemory.release SharedMemory.handleAt
  rw [cellAt_bind hget, hc]
  show (m.addTo c (-1) >>= _) = _
  rw [hadd]
  show (cellAt .deleted m₁.counters c >>= _) = _
  rw [cellAt_bind hcount]
  -- `delete ptr_` runs the destructors of the members before the object is gone.
  show (m₁.deleteObject (SharedMemory.destroy depth) h.ptr_ >>= _) = _
  rw [hp]
  show ((cellAt .deleted m₁.objects o >>= _) >>= _) = _
  rw [cellAt_bind hobject]
  show ((object.members.reverse.foldlM (SharedMemory.destroy depth) m₁ >>= _) >>= _) = _
  rw [hrun]
  show ((cellAt .deleted m₂.objects o >>= _) >>= _) = _
  rw [cellAt_bind hobject']
  -- `delete count_` reads the pointer of the handle again.
  show (cellAt .handle m₂.handles i >>= _) = _
  rw [cellAt_bind hget']
  show (SharedMemory.deleteCounter _ h'.count_ >>= _) = _
  rw [hc']
  show ((cellAt .deleted m₂.counters c >>= _) >>= _) = _
  rw [cellAt_bind hcount']
  rfl

end

/-- The specification of `release` with a bound on the depth. The handle is the one that is released
first, or a member of an object whose destructor runs. -/
def ReleaseMeets (m₀ : SharedMemory T) (C₀ : Finset Nat) (raw : List Nat) (this : Nat)
    (Z : Nat → Prop) (depth : Nat) : Prop :=
  ∀ m C busy i, Cascade m₀ C₀ raw this Z m C busy → i ∈ C →
    (i = this ∨ ∃ o object, o ∈ busy ∧ cellOf m₀.objects o = some object ∧ i ∈ object.members) →
    (targets m₀.ptrAt C).card < depth →
    ∃ m' C' h, m.release depth i = .ok m' ∧ Releases m₀ C₀ raw this Z m m' C C' busy {i} ∧
      cellOf m'.handles i = some h

/-- The destructor of a handle that is a member. -/
theorem ReleaseMeets.destroy {depth : Nat} (hrelease : ReleaseMeets m₀ C₀ raw this Z depth)
    (h : Cascade m₀ C₀ raw this Z m C busy) (hi : i ∈ C) {object : SharedObject T}
    (ho : o ∈ busy) (hobject : cellOf m₀.objects o = some object) (hmem : i ∈ object.members)
    (hdepth : (targets m₀.ptrAt C).card < depth) :
    ∃ m' C', m.destroy depth i = .ok m' ∧ Releases m₀ C₀ raw this Z m m' C C' busy {i} ∧
      cellOf m'.handles i = none := by
  obtain ⟨m', C', k, hrun, hreleases, hk⟩ :=
    hrelease m C busy i h hi (.inr ⟨o, object, ho, hobject, hmem⟩) hdepth
  have hlt := lt_of_cellOf hk
  -- `Release` leaves the handle null, and it does not count any more.
  have hout : i ∉ C' := fun hin =>
    (Finset.mem_sdiff.mp (hreleases.sub hin)).2 (Finset.mem_singleton_self i)
  have hset : ∀ j, j ≠ i →
      cellOf (m'.setHandle i none).handles j = cellOf m'.handles j := fun j hj =>
    (cellOf_set hlt none).trans (if_neg hj)
  refine ⟨m'.setHandle i none, C', ?_, ?_, (cellOf_set hlt none).trans (if_pos rfl)⟩
  · unfold SharedMemory.destroy
    rw [hrun]
    rfl
  · constructor
    case cascade => exact hreleases.cascade.setHandle hout hlt none
    case sub => exact hreleases.sub
    case lost =>
      intro j hj hn hji
      obtain ⟨hnone, howner⟩ := hreleases.lost j hj hn hji
      exact ⟨(hset j fun heq => hji (Finset.mem_singleton.mpr heq)).trans hnone, howner⟩
    case frame =>
      intro j hj
      exact (hset j fun heq => hj (heq ▸ hi)).trans (hreleases.frame j hj)
    case counters => exact hreleases.counters

/-- The destructors of the members of an object, by induction on the list of these. A member that
is still to come was not lost before, as it is a member of no other object. -/
theorem ReleaseMeets.destroyAll {depth : Nat} (hrelease : ReleaseMeets m₀ C₀ raw this Z depth)
    (hm : Owned m₀ C₀ ∅ raw) {object : SharedObject T} (ho : o ∈ busy)
    (hobject : cellOf m₀.objects o = some object) {js : List Nat} (hnodup : js.Nodup)
    (hmem : ∀ j, j ∈ js → j ∈ object.members) (h : Cascade m₀ C₀ raw this Z m C busy)
    (hjs : ∀ j, j ∈ js → j ∈ C) (hdepth : (targets m₀.ptrAt C).card < depth) :
    ∃ m' C', js.foldlM (SharedMemory.destroy depth) m = .ok m' ∧
      Releases m₀ C₀ raw this Z m m' C C' busy js.toFinset ∧
      ∀ j, j ∈ js → cellOf m'.handles j = none := by
  induction js generalizing m C with
  | nil =>
    refine ⟨m, C, rfl, ⟨h, ?_, fun j hj hn => absurd hj hn, fun j _ => rfl, fun c _ => rfl⟩, nofun⟩
    rw [List.toFinset_nil, Finset.sdiff_empty]
  | cons i js ih =>
    obtain ⟨hi, hnodup⟩ := List.nodup_cons.mp hnodup
    obtain ⟨m₁, C₁, hrun₁, h₁, hnone⟩ := hrelease.destroy h (hjs i List.mem_cons_self) ho hobject
      (hmem i List.mem_cons_self) hdepth
    have hsub₁ : C₁ ⊆ C := h₁.sub.trans Finset.sdiff_subset
    have hjs₁ : ∀ j, j ∈ js → j ∈ C₁ := by
      intro j hj
      -- Another object that was deleted would have to have it as a member, too.
      by_contra hn
      have hji : j ∉ ({i} : Finset Nat) := fun heq => hi (Finset.mem_singleton.mp heq ▸ hj)
      obtain ⟨-, o', object', hobject', hbusy, -, hmem'⟩ :=
        h₁.lost j (hjs j (List.mem_cons_of_mem i hj)) hn hji
      have heq := hm.apart o o' object object' j hobject hobject'
        (hmem j (List.mem_cons_of_mem i hj)) hmem'
      exact hbusy (heq ▸ ho)
    obtain ⟨m₂, C₂, hrun₂, h₂, hnone₂⟩ := ih hnodup
      (fun j hj => hmem j (List.mem_cons_of_mem i hj)) h₁.cascade hjs₁
      (Nat.lt_of_le_of_lt (card_targets_mono hsub₁) hdepth)
    refine ⟨m₂, C₂, ?_, ?_, fun j hj => ?_⟩
    · rw [List.foldlM_cons, hrun₁]
      exact hrun₂
    · rw [List.toFinset_cons, ← Finset.singleton_union]
      exact h₁.trans h₂
    · rcases List.mem_cons.mp hj with rfl | hj
      · -- The destructors after this one do not touch a handle that is gone.
        have hout : j ∉ C₁ := fun hin =>
          (Finset.mem_sdiff.mp (h₁.sub hin)).2 (Finset.mem_singleton_self j)
        exact (h₂.frame j hout).trans hnone
      · exact hnone₂ j hj

/-- The handle that is released is a member of no object that exists, apart from the object whose
destructor runs. -/
theorem Cascade.member_busy (h : Cascade m₀ C₀ raw this Z m C busy) (hm : Owned m₀ C₀ ∅ raw)
    (howner : i = this ∨ ∃ o object, o ∈ busy ∧ cellOf m₀.objects o = some object ∧
      i ∈ object.members) {object : SharedObject T} (hobject : cellOf m.objects o = some object)
    (ho : o ∉ busy) (hmem : i ∈ object.members) : i = this := by
  rcases howner with hthis | ⟨o', object', ho', hobject', hmem'⟩
  · exact hthis
  · -- No object changes before it is deleted.
    have hobject₀ : cellOf m₀.objects o = some object := by
      rcases h.objects o with heq | ⟨hnone, -⟩
      · exact heq ▸ hobject
      · rw [hnone] at hobject
        cases hobject
    exact absurd (hm.apart o' o object' object i hobject' hobject₀ hmem' hmem ▸ ho') ho

/-- A handle whose object has others stops to count. So does a null handle. -/
theorem Cascade.releases_erase (h : Cascade m₀ C₀ raw this Z m C busy) (hm : Owned m₀ C₀ ∅ raw)
    (howner : i = this ∨ ∃ o object, o ∈ busy ∧ cellOf m₀.objects o = some object ∧
      i ∈ object.members) (hi : i ∈ C)
    (hhandles : m'.handles = m.handles) (hobjects : m'.objects = m.objects)
    (hdeleted : m'.deleted = m.deleted)
    (hcounters : ∀ j, j ∈ C.erase i → ∀ o c, m₀.ptrAt j = some o → m₀.countAt j = some c →
      cellOf m'.counters c = some (refs m₀.ptrAt (C.erase i) o : Int))
    (hframe : ∀ c, m₀.countAt i ≠ some c → cellOf m'.counters c = cellOf m.counters c)
    (hlast : ∀ o, 0 < refs m₀.ptrAt C o → 0 < refs m₀.ptrAt (C.erase i) o) :
    Releases m₀ C₀ raw this Z m m' C (C.erase i) busy {i} where
  cascade := by
    refine h.erase ?_ (fun o object hobject ho hmem => h.member_busy hm howner hobject ho hmem)
      hhandles hobjects hdeleted (Finset.Subset.refl busy) hcounters
      (fun o hnew hold => absurd hnew hold) fun o hpos hzero => ?_
    · refine howner.imp_right fun hmember => ?_
      obtain ⟨o, object, ho, hobject, hmem⟩ := hmember
      exact ⟨o, object, hobject, (h.busy o ho).1, hmem⟩
    · exact absurd hzero (Nat.ne_of_gt (hlast o hpos))
  sub := by rw [Finset.sdiff_singleton_eq_erase]
  lost j hj hn hji := by
    rw [Finset.mem_erase, not_and] at hn
    exact absurd hj (hn fun heq => hji (Finset.mem_singleton.mpr heq))
  frame j hj := by rw [hhandles]
  counters c hc := hframe c (hc i hi)

/-- One handle less is counted. -/
theorem Cascade.counters_erase (h : Cascade m₀ C₀ raw this Z m C busy) (hm : Owned m₀ C₀ ∅ raw)
    (hi : i ∈ C) (hp : m₀.ptrAt i = some o) (hc : m₀.countAt i = some c)
    (hlt : c < m.counters.length) {j o' c' : Nat} (hj : j ∈ C.erase i)
    (hp' : m₀.ptrAt j = some o') (hc' : m₀.countAt j = some c') :
    cellOf (m.counters.set c (some ((refs m₀.ptrAt C o : Int) + -1))) c' =
      some (refs m₀.ptrAt (C.erase i) o' : Int) := by
  have hj' := Finset.mem_of_mem_erase hj
  have hiff := hm.agree j (h.sub hj') i (h.sub hi)
  rw [hp, hc, hp', hc'] at hiff
  rw [cellOf_set hlt]
  by_cases ho : o' = o
  · obtain rfl := Option.some.inj (hiff.mp (congrArg some ho))
    have herase := refs_erase_of_ptr hi hp
    rw [if_pos rfl, ho, ← herase]
    congr 1
    omega
  · have hne : c' ≠ c := fun heq => ho (Option.some.inj (hiff.mpr (congrArg some heq)))
    have hptr : m₀.ptrAt i ≠ some o' := fun heq => ho (Option.some.inj (heq.symm.trans hp))
    rw [if_neg hne, refs_erase_of_ne hptr]
    exact h.counters j hj' o' c' hp' hc'

/-- The destructor of the object runs that loses its last handle. -/
theorem Cascade.erase_last (h : Cascade m₀ C₀ raw this Z m C busy) (hm : Owned m₀ C₀ ∅ raw)
    (hz : Closed m₀ C₀ this Z)
    (howner : i = this ∨ ∃ o object, o ∈ busy ∧ cellOf m₀.objects o = some object ∧
      i ∈ object.members) (hi : i ∈ C) (hp : m₀.ptrAt i = some o) (hone : refs m₀.ptrAt C o = 1)
    (hraw : o ∉ raw) (hhandles : m'.handles = m.handles) (hobjects : m'.objects = m.objects)
    (hdeleted : m'.deleted = m.deleted)
    (hcounters : ∀ j, j ∈ C.erase i → ∀ o c, m₀.ptrAt j = some o → m₀.countAt j = some c →
      cellOf m'.counters c = some (refs m₀.ptrAt (C.erase i) o : Int)) :
    Cascade m₀ C₀ raw this Z m' (C.erase i) (insert o busy) := by
  have hzero : refs m₀.ptrAt (C.erase i) o = 0 := by
    have herase := refs_erase_of_ptr hi hp
    omega
  have hiz : i = this ∨ InZ m₀ Z i := howner.imp_right fun hmember => by
    obtain ⟨o', object, ho', hobject, hmem⟩ := hmember
    exact ⟨o', object, hobject, (h.busy o' ho').1, hmem⟩
  refine h.erase hiz (fun o' object hobject ho' hmem =>
      h.member_busy hm howner hobject ho' hmem) hhandles hobjects hdeleted
    (Finset.subset_insert o busy) hcounters (fun o' hnew hold => ?_) fun o' hpos hzero' => ?_
  · obtain rfl := (Finset.mem_insert.mp hnew).resolve_right hold
    -- All handles of the object are gone, so it is one that may be deleted.
    have hfalls : Z o' := by
      refine hz.falls o' (refs_pos_iff.mpr ⟨i, h.sub hi, hp⟩) fun j hj hpj => ?_
      by_cases hji : j = i
      · exact hji ▸ hiz
      · refine h.gone j hj fun hjC => ?_
        exact refs_eq_zero_iff.mp hzero j (Finset.mem_erase.mpr ⟨hji, hjC⟩) hpj
    exact ⟨hfalls, hzero, hraw, h.alive o' (.inl (by omega))⟩
  · by_cases ho' : o' = o
    · exact ho' ▸ Finset.mem_insert_self o busy
    · rw [refs_erase_of_ne fun heq => ho' (Option.some.inj (heq.symm.trans hp))] at hzero'
      omega

/-- The release of the last handle of an object, from what it does to the members of that. -/
theorem ReleaseMeets.last {depth : Nat} (hrelease : ReleaseMeets m₀ C₀ raw this Z depth)
    (hm : Owned m₀ C₀ ∅ raw) (hz : Closed m₀ C₀ this Z) (h : Cascade m₀ C₀ raw this Z m C busy)
    (howner : i = this ∨ ∃ o object, o ∈ busy ∧ cellOf m₀.objects o = some object ∧
      i ∈ object.members) (hi : i ∈ C) (hp : m₀.ptrAt i = some o) (hc : m₀.countAt i = some c)
    (hone : refs m₀.ptrAt C o = 1) (hdepth : (targets m₀.ptrAt C).card < depth + 1) :
    ∃ m' C' k, m.release (depth + 1) i = .ok m' ∧
      Releases m₀ C₀ raw this Z m m' C C' busy {i} ∧ cellOf m'.handles i = some k := by
  obtain ⟨k, c', object, hget₀, hkp, hkc, hc', hobject₀, hraw, -⟩ := hm.of_ptr (h.sub hi) hp
  rw [hc] at hc'
  obtain rfl := Option.some.inj hc'
  have hget := (h.handles i hi).trans hget₀
  have hcount := h.counters i hi o c hp hc
  rw [hone] at hcount
  have hlt := lt_of_cellOf hcount
  have hzero : refs m₀.ptrAt (C.erase i) o = 0 := by
    have herase := refs_erase_of_ptr hi hp
    omega
  have hbusy : o ∉ busy := fun hmem => by
    have hnone := (h.busy o hmem).2.1
    omega
  -- The counter is zero, and no other handle has it.
  have hadd : m.addTo c (-1) = .ok { m with counters := m.counters.set c (some 0) } :=
    addTo_of_cellOf hcount (by decide) (by decide)
  have hother : ∀ j, j ∈ C.erase i → m₀.countAt j ≠ some c := by
    intro j hj hcj
    have hj' := h.sub (Finset.mem_of_mem_erase hj)
    have hpj := (hm.agree j hj' i (h.sub hi)).mpr (hcj.trans hc.symm)
    exact refs_eq_zero_iff.mp hzero j hj (hpj.trans hp)
  have h₁ : Cascade m₀ C₀ raw this Z { m with counters := m.counters.set c (some 0) } (C.erase i)
      (insert o busy) :=
    h.erase_last hm hz howner hi hp hone hraw rfl rfl rfl fun j hj o' c' hp' hc' => by
      have hstep := h.counters_erase hm hi hp hc hlt hj hp' hc'
      rwa [hone] at hstep
  have hobject₁ : cellOf m.objects o = some object :=
    (h.alive o (.inl (by omega))).trans hobject₀
  -- The members count, and are other handles.
  have hmembers : ∀ j, j ∈ object.members.reverse → j ∈ C.erase i := by
    intro j hj
    have hj' := List.mem_reverse.mp hj
    have hfalls := (h₁.busy o (Finset.mem_insert_self o busy)).1
    have hthis : j ≠ this := fun heq => hz.this_notMem ⟨o, object, hobject₀, hfalls, heq ▸ hj'⟩
    have hji : j ≠ i := fun heq =>
      hthis (heq ▸ h.member_busy hm howner hobject₁ hbusy (heq ▸ hj'))
    exact Finset.mem_erase.mpr ⟨hji, (h.members o object hobject₁ hbusy j hj').resolve_right hthis⟩
  have hdepth' : (targets m₀.ptrAt (C.erase i)).card < depth := by
    have hless := card_targets_lt (Finset.erase_subset i C) (by omega) hzero
    omega
  obtain ⟨m₂, C₂, hrun, h₂, hnone⟩ := hrelease.destroyAll hm (Finset.mem_insert_self o busy)
    hobject₀ (List.nodup_reverse.mpr (hm.nodup_members o object hobject₀))
    (fun j hj => List.mem_reverse.mp hj) h₁ hmembers hdepth'
  have hsub₂ : C₂ ⊆ C.erase i := h₂.sub.trans Finset.sdiff_subset
  have hi₂ : i ∉ C₂ := fun hmem => Finset.notMem_erase i C (hsub₂ hmem)
  have hobject₂ := (h₂.cascade.alive o (.inr (.inr (Finset.mem_insert_self o busy)))).trans hobject₀
  have hget₂ : cellOf m₂.handles i = some k := (h₂.frame i (Finset.notMem_erase i C)).trans hget
  have hcount₂ : cellOf m₂.counters c = some 0 :=
    (h₂.counters c hother).trans ((cellOf_set hlt _).trans (if_pos rfl))
  have hlt₂ := lt_of_cellOf hget₂
  refine ⟨_, C₂, {}, release_last hget hkc hkp hadd ((cellOf_set hlt _).trans (if_pos rfl)) hobject₁
    hrun hobject₂ hget₂ hkc hcount₂, ?_, (cellOf_set hlt₂ _).trans (if_pos rfl)⟩
  constructor
  case cascade =>
    exact ((h₂.cascade.freeObject hbusy hobject₂).deleteCounter (lt_of_cellOf hcount₂) fun j hj =>
      hother j (hsub₂ hj)).setHandle hi₂ hlt₂ _
  case sub => rwa [Finset.sdiff_singleton_eq_erase]
  case lost =>
    intro j hj hn hji
    have hji' : j ≠ i := fun heq => hji (Finset.mem_singleton.mpr heq)
    have hset := (cellOf_set (q := j) hlt₂ (some {})).trans (if_neg hji')
    by_cases hjs : j ∈ object.members.reverse
    · exact ⟨hset.trans (hnone j hjs), o, object, hobject₀, hbusy,
        (h₁.busy o (Finset.mem_insert_self o busy)).1, List.mem_reverse.mp hjs⟩
    · obtain ⟨hlost, o', object', hobject', ho', hrest⟩ :=
        h₂.lost j (Finset.mem_erase.mpr ⟨hji', hj⟩) hn fun hmem => hjs (List.mem_toFinset.mp hmem)
      exact ⟨hset.trans hlost, o', object', hobject', fun hmem =>
        ho' (Finset.mem_insert_of_mem hmem), hrest⟩
  case frame =>
    intro j hj
    have hji : j ≠ i := fun heq => hj (heq ▸ hi)
    exact ((cellOf_set hlt₂ _).trans (if_neg hji)).trans
      (h₂.frame j fun hmem => hj (Finset.mem_of_mem_erase hmem))
  case counters =>
    intro c' hc'
    have hne : c' ≠ c := fun heq => hc' i hi (heq ▸ hc)
    have hlt' := lt_of_cellOf hcount₂
    exact ((cellOf_set hlt' _).trans (if_neg hne)).trans ((h₂.counters c' fun j hj =>
      hc' j (Finset.mem_of_mem_erase hj)).trans ((cellOf_set hlt _).trans (if_neg hne)))

/-- `release` meets its specification with every bound. -/
theorem releaseMeets (hm : Owned m₀ C₀ ∅ raw) (hcard : C₀.card < 2147483648)
    (hz : Closed m₀ C₀ this Z) (depth : Nat) : ReleaseMeets m₀ C₀ raw this Z depth := by
  induction depth with
  | zero => exact fun m C busy i h hi howner hdepth => absurd hdepth (Nat.not_lt_zero _)
  | succ depth ih =>
    intro m C busy i h hi howner hdepth
    obtain ⟨k, hget₀, hnull | ⟨o, c, object, hkp, hkc, hobject, hraw, -⟩⟩ := hm.refers i (h.sub hi)
    · -- A null handle.
      have hget := (h.handles i hi).trans hget₀
      have hptr : ∀ o, m₀.ptrAt i ≠ some o := fun o ho => by
        rw [ptrAt_of_cellOf hget₀, hnull.1] at ho
        cases ho
      refine ⟨m, C.erase i, k, release_null hget hnull.2, ?_, hget⟩
      refine h.releases_erase hm howner hi rfl rfl rfl (fun j hj o c hp hc => ?_)
        (fun c _ => rfl) fun o hpos => ?_
      · rw [refs_erase_of_ne (hptr o)]
        exact h.counters j (Finset.mem_of_mem_erase hj) o c hp hc
      · rwa [refs_erase_of_ne (hptr o)]
    · have hget := (h.handles i hi).trans hget₀
      have hp := (ptrAt_of_cellOf hget₀).trans hkp
      have hc := (countAt_of_cellOf hget₀).trans hkc
      have hpos : 0 < refs m₀.ptrAt C o := refs_pos_iff.mpr ⟨i, hi, hp⟩
      have hle : refs m₀.ptrAt C o ≤ C₀.card := refs_le_card.trans (Finset.card_le_card h.sub)
      by_cases hone : refs m₀.ptrAt C o = 1
      · exact ih.last hm hz h howner hi hp hc hone hdepth
      · -- The object has more handles.
        have hcount := h.counters i hi o c hp hc
        have hlt := lt_of_cellOf hcount
        refine ⟨_, C.erase i, k, release_shared hget hkc
          (addTo_of_cellOf hcount (by omega) (by omega)) ((cellOf_set hlt _).trans (if_pos rfl))
          (by omega), ?_, hget⟩
        refine h.releases_erase hm howner hi rfl rfl rfl (fun j hj o' c' hp' hc' =>
          h.counters_erase hm hi hp hc hlt hj hp' hc') (fun c' hc' => ?_) fun o' hpos' => ?_
        · exact (cellOf_set hlt _).trans (if_neg fun heq : c' = c => hc' (heq ▸ hc))
        · by_cases ho' : o' = o
          · have herase := refs_erase_of_ptr hi hp
            rw [ho']
            omega
          · rwa [refs_erase_of_ne fun heq => ho' (Option.some.inj (heq.symm.trans hp))]

/-! ### The first `Release` -/

/-- The last member function that is left, `Release` of a handle that counts. It exists afterwards,
but does not count. The handles that are gone were members of objects that may be deleted. -/
theorem Owned.release (hm : Owned m₀ C₀ ∅ raw) (hcard : C₀.card < 2147483648)
    (hz : Closed m₀ C₀ this Z) (hthis : this ∈ C₀) :
    ∃ m' C' h, m₀.release m₀.maxDepth this = .ok m' ∧ Owned m' C' {this} raw ∧
      cellOf m'.handles this = some h ∧ C' ⊆ C₀.erase this ∧
      (∀ j, j ∈ C₀ → j ∉ C' → j ≠ this → cellOf m'.handles j = none ∧ InZ m₀ Z j) ∧
      (∀ j, j ∉ C₀ → cellOf m'.handles j = cellOf m₀.handles j) ∧
      (∀ o object, cellOf m'.objects o = some object → cellOf m₀.objects o = some object) ∧
      m'.objects.length = m₀.objects.length := by
  obtain ⟨m', C', h, hrun, hreleases, hget⟩ := releaseMeets hm hcard hz m₀.maxDepth m₀ C₀ ∅ this
    hm.cascade hthis (.inl rfl) (Nat.lt_succ_of_le hm.card_targets_le)
  have hcascade := hreleases.cascade
  have hsub : C' ⊆ C₀ := hreleases.sub.trans Finset.sdiff_subset
  have hptr : ∀ j, j ∈ C' → m'.ptrAt j = m₀.ptrAt j := fun j hj =>
    ptrAt_congr (hcascade.handles j hj)
  have hcount : ∀ j, j ∈ C' → m'.countAt j = m₀.countAt j := fun j hj =>
    countAt_congr (hcascade.handles j hj)
  have hrefs : ∀ o, refs m'.ptrAt C' o = refs m₀.ptrAt C' o := fun o => refs_congr hptr
  have hobject : ∀ o object, cellOf m'.objects o = some object →
      cellOf m₀.objects o = some object := by
    intro o object ho
    rcases hcascade.objects o with heq | ⟨hnone, -⟩
    · exact heq ▸ ho
    · rw [hnone] at ho
      cases ho
  refine ⟨m', C', h, hrun, ?_, hget, ?_, fun j hj hn hne => ?_, hreleases.frame,
    hobject, hcascade.length_objects⟩
  · constructor
    case refers =>
      intro j hj
      obtain ⟨k, hk, hrefers⟩ := hm.refers j (hsub hj)
      refine ⟨k, (hcascade.handles j hj).trans hk, hrefers.imp_right fun hsome => ?_⟩
      obtain ⟨o, c, object, hkp, hkc, ho, hraw, -⟩ := hsome
      have hp := (ptrAt_of_cellOf hk).trans hkp
      have hc := (countAt_of_cellOf hk).trans hkc
      have hpos : 0 < refs m₀.ptrAt C' o := refs_pos_iff.mpr ⟨j, hj, hp⟩
      refine ⟨o, c, object, hkp, hkc, (hcascade.alive o (.inl hpos)).trans ho, hraw, ?_⟩
      rw [hrefs]
      exact hcascade.counters j hj o c hp hc
    case agree =>
      intro j hj k hk
      rw [hptr j hj, hptr k hk, hcount j hj, hcount k hk]
      exact hm.agree j (hsub hj) k (hsub hk)
    case members =>
      intro o object ho j hj
      exact (hcascade.members o object ho (Finset.notMem_empty o) j hj).elim
        (Finset.mem_union_left _) fun heq =>
          Finset.mem_union_right _ (Finset.mem_singleton.mpr heq)
    case apart =>
      exact fun o o' object object' j ho ho' => hm.apart o o' object object' j
        (hobject o object ho) (hobject o' object' ho')
    case nodup_members => exact fun o object ho => hm.nodup_members o object (hobject o object ho)
    case out_lt =>
      intro j hj
      rw [Finset.mem_singleton.mp hj]
      exact lt_of_cellOf hget
    case deleted_iff =>
      intro o ho
      rw [hcascade.length_objects] at ho
      rw [hrefs, ← hcascade.empty_iff o]
      constructor
      · intro hnone
        have hcell : cellOf m'.objects o = none := by
          unfold cellOf
          rw [hnone]
          rfl
        -- An object that exists in neither of the cases below exists now.
        have hlost : ∀ object, cellOf m₀.objects o = some object →
            ¬ (0 < refs m₀.ptrAt C' o ∨ o ∈ raw) := by
          intro object hsome hor
          have heq := hcascade.alive o (hor.imp_right .inl)
          rw [hcell, hsome] at heq
          cases heq
        by_cases hdel : o ∈ m₀.deleted
        · obtain ⟨hraw, hzero⟩ := (hm.deleted_iff o ho).mp hdel
          exact ⟨hraw, Nat.le_zero.mp (hzero ▸ refs_mono hsub)⟩
        · obtain ⟨object, hsome⟩ := hm.object_of_not_deleted ho hdel
          have hnor := hlost object hsome
          exact ⟨fun hraw => hnor (.inr hraw), by omega⟩
      · rintro ⟨hraw, hzero⟩
        have hlt : o < m'.objects.length := hcascade.length_objects.symm ▸ ho
        refine getElem?_of_cell_none hlt ?_
        by_contra hne
        obtain ⟨object, hsome⟩ := Option.ne_none_iff_exists'.mp hne
        have hpos := hcascade.dead o object hsome hraw (Finset.notMem_empty o)
        omega
    case empty_iff => exact hcascade.empty_iff
    case nodup => exact hcascade.nodup
    case raw_lt =>
      intro o ho
      rw [hcascade.length_objects]
      exact hm.raw_lt o ho
  · rw [← Finset.sdiff_singleton_eq_erase]
    exact hreleases.sub
  · obtain ⟨hnone, o, object, hobject, -, hfalls, hmem⟩ :=
      hreleases.lost j hj hn fun heq => hne (Finset.mem_singleton.mp heq)
    exact ⟨hnone, o, object, hobject, hfalls, hmem⟩

end KernelEventsTrace.Driver.Std.SharedPtr
