import KernelEventsTrace.Proofs.SharedPtr.Cascade

/-!
# `KernelEventsTrace.Proofs.SharedPtr.Runs`: shared ownership in whole programs

A program satisfies `Inv`: its memory is `Owned` by the handles that exist, and these are not too
many for a counter. A step makes a handle, takes one away, or writes one. An assignment is a
`Release`, and a copy of a handle that it left.

`Inv.step` is the step lemma, `Inv.run` the run lemma, and `run_shares` the result. What `SharedPtr`
promises holds at every point of a program, as long as no assignment destroys the handle that it
reads or the one that it writes (`Keeps`). `popFront` is one that does.
-/

set_option autoImplicit false

namespace KernelEventsTrace.Driver.Std.SharedPtr

variable {T : Type}

/-! ### The handles that exist -/

section
variable {m m' : SharedMemory T} {C out : Finset Nat} {raw : List Nat} {i j : Nat}
  {h : SharedPtr}

/-- The handles that were not destroyed. -/
theorem mem_live_iff : i ∈ m.live ↔ ∃ h, cellOf m.handles i = some h := by
  unfold SharedMemory.live
  rw [Finset.mem_filter, Finset.mem_range, Option.isSome_iff_exists]
  exact and_iff_right_of_imp fun ⟨h, hget⟩ => lt_of_cellOf hget

/-- One more handle. -/
theorem live_insert
    (hhandles : ∀ i, cellOf m'.handles i = if i = j then some h else cellOf m.handles i) :
    m'.live = insert j m.live := by
  ext i
  rw [Finset.mem_insert, mem_live_iff, mem_live_iff, hhandles]
  by_cases hij : i = j
  · rw [if_pos hij]
    exact iff_of_true ⟨h, rfl⟩ (.inl hij)
  · rw [if_neg hij]
    exact (or_iff_right hij).symm

/-- A handle that does not count, and that is a member of no object, is taken away. -/
theorem Owned.forget (hm : Owned m C {j} raw) (hj : j ∉ C)
    (hmember : ∀ o object, cellOf m.objects o = some object → j ∉ object.members) :
    Owned (m.setHandle j none) C ∅ raw := by
  -- None of the handles that count changes.
  have hsame : ∀ i, i ∈ C →
      cellOf (m.setHandle j none).handles i = cellOf m.handles i := fun i hi =>
    (cellOf_set (hm.out_lt j (Finset.mem_singleton_self j)) none).trans
      (if_neg fun heq : i = j => hj (heq ▸ hi))
  have hrefs : ∀ o, refs (m.setHandle j none).ptrAt C o = refs m.ptrAt C o := fun o =>
    refs_congr fun i hi => ptrAt_congr (hsame i hi)
  constructor
  case refers =>
    intro i hi
    obtain ⟨h, hget, hrefers⟩ := hm.refers i hi
    refine ⟨h, (hsame i hi).trans hget, ?_⟩
    show (h.ptr_ = none ∧ h.count_ = none) ∨ ∃ o c object, h.ptr_ = some o ∧ h.count_ = some c ∧
      cellOf m.objects o = some object ∧ o ∉ raw ∧
        cellOf m.counters c = some (refs (m.setHandle j none).ptrAt C o : Int)
    unfold Refers at hrefers
    simpa only [hrefs] using hrefers
  case agree =>
    intro i hi k hk
    rw [ptrAt_congr (hsame i hi), ptrAt_congr (hsame k hk), countAt_congr (hsame i hi),
      countAt_congr (hsame k hk)]
    exact hm.agree i hi k hk
  case members =>
    intro o object ho i hi
    -- The handle that is taken away is no member of an object.
    have hi' := Finset.mem_union.mp (hm.members o object ho i hi)
    refine Finset.mem_union_left _ (hi'.resolve_right fun hmem => ?_)
    exact hmember o object ho (Finset.mem_singleton.mp hmem ▸ hi)
  case apart => exact hm.apart
  case nodup_members => exact hm.nodup_members
  case out_lt => exact fun i hi => absurd hi (Finset.notMem_empty i)
  case deleted_iff =>
    intro o ho
    rw [hrefs]
    exact hm.deleted_iff o ho
  case empty_iff => exact hm.empty_iff
  case nodup => exact hm.nodup
  case raw_lt => exact hm.raw_lt

end

namespace State

variable {s s' : State T} {this other o i : Nat}

/-! ### The step lemma -/

/-- The invariant of a program: what `Owned` says, and fewer than 2 ^ 31 handles. -/
structure Inv (s : State T) : Prop where
  owned : Owned s.memory s.memory.live ∅ s.raw
  bound : s.memory.live.card < 2147483648

/-- A program that has done nothing. -/
theorem inv_empty : Inv ({} : State T) := ⟨owned_empty, Nat.succ_pos _⟩

/-- The step deletes the objects that lose their last handle in it, and no others. -/
def DeletesAtLast (s s' : State T) : Prop :=
  ∀ o, (o ∈ s'.memory.deleted ∧ o ∉ s.memory.deleted) ↔ (0 < s.handlesTo o ∧ s'.handlesTo o = 0)

/-- It follows from the invariants of both states. The pointers that the program gave away have a
handle, and those that it got belong to new objects. -/
theorem Inv.deletesAtLast (hs : s.Inv) (hs' : s'.Inv)
    (hlen : s.memory.objects.length ≤ s'.memory.objects.length)
    (hgave : ∀ o, o ∈ s.raw → o ∈ s'.raw ∨ 0 < s'.handlesTo o)
    (hgot : ∀ o, o ∈ s'.raw → o ∈ s.raw ∨ s.memory.objects.length ≤ o)
    (hnew : ∀ o, s.memory.objects.length ≤ o → o < s'.memory.objects.length → o ∈ s'.raw) :
    s.DeletesAtLast s' := by
  intro o
  constructor
  · rintro ⟨hdel, hn⟩
    have hlt' : o < s'.memory.objects.length :=
      (List.getElem?_eq_some_iff.mp ((hs'.owned.empty_iff o).mpr hdel)).1
    obtain ⟨hraw', hzero⟩ := (hs'.owned.deleted_iff o hlt').mp hdel
    -- A new object is with the program, so it is not deleted yet.
    have hlt : o < s.memory.objects.length := by
      by_contra hge
      exact hraw' (hnew o (Nat.not_lt.mp hge) hlt')
    refine ⟨Nat.pos_of_ne_zero fun hnone => hn ?_, hzero⟩
    refine (hs.owned.deleted_iff o hlt).mpr ⟨fun hraw => ?_, hnone⟩
    -- A pointer that the program gave away has a handle afterwards.
    rcases hgave o hraw with hmem | hpos
    · exact hraw' hmem
    · exact Nat.ne_of_gt hpos hzero
  · rintro ⟨hpos, hzero⟩
    obtain ⟨i, hi, hp⟩ := refs_pos_iff.mp hpos
    obtain ⟨h, c, object, -, -, -, -, hobject, hraw, -⟩ := hs.owned.of_ptr hi hp
    have hlt := lt_of_cellOf hobject
    refine ⟨(hs'.owned.deleted_iff o (Nat.lt_of_lt_of_le hlt hlen)).mpr ⟨fun hmem => ?_, hzero⟩,
      hs.owned.not_deleted hobject⟩
    -- A pointer that the program got belongs to a new object.
    rcases hgot o hmem with hold | hge
    · exact hraw hold
    · omega

/-- The step keeps the invariant, and deletes the objects that lose their last handle. -/
def StepMeets (s : State T) (x : Except PtrFault (State T)) : Prop :=
  ∃ s', x = .ok s' ∧ s'.Inv ∧ s.DeletesAtLast s'

/-- A step that neither makes an object nor uses a pointer. -/
theorem Inv.stepMeets_memory (hs : s.Inv) {m' : SharedMemory T}
    (hs' : Inv ({ s with memory := m' } : State T))
    (hlen : m'.objects.length = s.memory.objects.length) :
    StepMeets s (.ok { s with memory := m' }) := by
  refine ⟨_, rfl, hs', hs.deletesAtLast hs' (Nat.le_of_eq hlen.symm) (fun o ho => .inl ho)
    (fun o ho => .inl ho) fun o hge hlt => ?_⟩
  exact absurd hge (Nat.not_le.mpr (hlen ▸ hlt))

/-- `new`. -/
theorem Inv.step_new (hs : s.Inv) (value : T) {members : Nat} (hroom : s.Room members) :
    StepMeets s (s.step (.new value members)) := by
  have howned := hs.owned.newObject value members
  -- The members of the new object are null handles, and nothing else is new.
  have hlive : (s.memory.newObject value members).2.live = s.memory.live ∪
      Finset.Ico s.memory.handles.length (s.memory.handles.length + members) := by
    ext i
    rw [Finset.mem_union, mem_live_iff, mem_live_iff, Finset.mem_Ico]
    show (∃ h, cellOf (s.memory.handles ++ List.replicate members (some ({} : SharedPtr))) i =
      some h) ↔ _
    rw [cellOf_append_replicate]
    by_cases hi : s.memory.handles.length ≤ i ∧ i < s.memory.handles.length + members
    · rw [if_pos hi]
      exact iff_of_true ⟨{}, rfl⟩ (.inr hi)
    · rw [if_neg hi]
      exact (or_iff_left hi).symm
  rw [← hlive] at howned
  -- There is room for the members.
  have hbound : (s.memory.newObject value members).2.live.card < 2147483648 := by
    have hcard := Finset.card_union_le s.memory.live
      (Finset.Ico s.memory.handles.length (s.memory.handles.length + members))
    rw [Nat.card_Ico] at hcard
    unfold Room at hroom
    rw [hlive]
    omega
  have hlength : (s.memory.newObject value members).2.objects.length =
      s.memory.objects.length + 1 := List.length_append
  have hinv : Inv (⟨(s.memory.newObject value members).2, s.raw ++ [s.memory.objects.length]⟩ :
      State T) := ⟨howned, hbound⟩
  refine ⟨_, rfl, hinv, hs.deletesAtLast hinv ?_ (fun o ho => .inl (List.mem_append_left _ ho))
    (fun o ho => ?_) fun o hge hlt => ?_⟩
  · exact Nat.le_of_lt (Nat.lt_of_lt_of_eq (Nat.lt_succ_self _) hlength.symm)
  · exact (List.mem_append.mp ho).imp_right fun heq => Nat.le_of_eq (List.mem_singleton.mp heq).symm
  · rw [Nat.le_antisymm (Nat.le_of_lt_succ (Nat.lt_of_lt_of_eq hlt hlength)) hge]
    exact List.mem_append_right _ List.mem_cons_self

/-- The constructor from a pointer. -/
theorem Inv.step_construct (hs : s.Inv) {ptr : Option Nat} (hptr : ∀ p, ptr = some p → p ∈ s.raw)
    (hroom : s.Room 1) : StepMeets s (s.step (.construct ptr)) := by
  have howned := hs.owned.construct hptr
  have hnew : ∃ h, h.ptr_ = ptr ∧ ∀ i, cellOf (SharedPtr.construct s.memory ptr).handles i =
      if i = s.memory.handles.length then some h else cellOf s.memory.handles i := by
    cases ptr with
    | none => exact ⟨{}, rfl, fun i => cellOf_concat _⟩
    | some p => exact ⟨⟨some p, some s.memory.counters.length⟩, rfl, fun i => cellOf_concat _⟩
  obtain ⟨h, hp, hhandles⟩ := hnew
  have hlive := live_insert hhandles
  rw [← hlive] at howned
  have hinv : Inv (⟨SharedPtr.construct s.memory ptr, s.raw.filter fun p => ptr ≠ some p⟩ :
      State T) := by
    refine ⟨howned, ?_⟩
    show (SharedPtr.construct s.memory ptr).live.card < _
    rw [hlive]
    exact Nat.lt_of_le_of_lt (Finset.card_insert_le _ _) hroom
  have hobjects : (SharedPtr.construct s.memory ptr).objects = s.memory.objects := by
    cases ptr <;> rfl
  refine ⟨_, rfl, hinv, hs.deletesAtLast hinv ?_ (fun o ho => ?_) (fun o ho => ?_)
    fun o hge hlt => ?_⟩
  · exact Nat.le_of_eq (congrArg List.length hobjects.symm)
  · by_cases hne : ptr = some o
    · -- The new handle points to the object.
      have hget : cellOf (SharedPtr.construct s.memory ptr).handles s.memory.handles.length =
          some h := (hhandles _).trans (if_pos rfl)
      refine .inr (refs_pos_iff.mpr ⟨s.memory.handles.length, mem_live_iff.mpr ⟨h, hget⟩, ?_⟩)
      exact (ptrAt_of_cellOf hget).trans (hp.trans hne)
    · exact .inl (List.mem_filter.mpr ⟨ho, decide_eq_true hne⟩)
  · exact .inl (List.mem_filter.mp ho).1
  · exact absurd hge (Nat.not_le.mpr (Nat.lt_of_lt_of_eq hlt (congrArg List.length hobjects)))

/-- The constructor from another handle. -/
theorem Inv.step_copyConstruct (hs : s.Inv) (hother : other ∈ s.memory.live) (hroom : s.Room 1) :
    StepMeets s (s.step (.copyConstruct other)) := by
  obtain ⟨h, hget⟩ := mem_live_iff.mp hother
  have hfresh : s.memory.handles.length ∉ s.memory.live := fun hmem =>
    Nat.lt_irrefl _ (hs.owned.lt_of_mem hmem)
  have hhandles : ∀ i, cellOf (s.memory.newHandle h).handles i =
      if i = s.memory.handles.length then some h else cellOf s.memory.handles i :=
    fun i => cellOf_concat _
  obtain ⟨m', hrun, hsame, howned, hobjects⟩ := hs.owned.acquire hother hget hfresh hroom hhandles
    rfl rfl rfl (by simp [SharedMemory.newHandle])
  have hlive : m'.live = insert s.memory.handles.length s.memory.live :=
    live_insert fun i => by rw [hsame, hhandles]
  rw [← hlive] at howned
  show StepMeets s (SharedPtr.copyConstruct s.memory other >>= _)
  unfold SharedPtr.copyConstruct SharedMemory.handleAt
  rw [cellAt_bind hget]
  show StepMeets s ((s.memory.newHandle h).acquire h >>= _)
  rw [hrun]
  refine hs.stepMeets_memory ⟨howned, ?_⟩ (congrArg List.length hobjects)
  show m'.live.card < _
  rw [hlive]
  exact Nat.lt_of_le_of_lt (Finset.card_insert_le _ _) hroom

/-- A handle in a deleted object is one of its members. -/
theorem mem_memberOf_of_inZ {Z : Nat → Prop} (h : InZ s.memory Z i) :
    ∃ o, Z o ∧ s.MemberOf i o := by
  obtain ⟨o, object, hobject, hz, hmem⟩ := h
  exact ⟨o, hz, object, hobject, hmem⟩

/-- The objects that lose their last handle are closed, in the sense of a `Release`. -/
theorem Inv.closed_falls (hs : s.Inv) (hthis : ∀ o, s.Falls this o → ¬ s.MemberOf this o) :
    Closed s.memory s.memory.live this (s.Falls this) where
  falls o hpos hall := by
    refine .intro hpos (fun i hi hp hne => ?_) fun i o' hi hp hne hmember => ?_
    · obtain ⟨o', -, hmember⟩ := mem_memberOf_of_inZ ((hall i hi hp).resolve_left hne)
      exact ⟨o', hmember⟩
    · obtain ⟨o₁, hfalls, object₁, hobject₁, hmem₁⟩ :=
        mem_memberOf_of_inZ ((hall i hi hp).resolve_left hne)
      obtain ⟨object, hobject, hmem⟩ := hmember
      exact hs.owned.apart o₁ o' object₁ object i hobject₁ hobject hmem₁ hmem ▸ hfalls
  this_notMem hmem := by
    obtain ⟨o, hfalls, hmember⟩ := mem_memberOf_of_inZ hmem
    exact hthis o hfalls hmember

/-- After a `Release`, the handles that count and the one that was released exist. -/
theorem live_of_release {m m' : SharedMemory T} {C' : Finset Nat} {raw : List Nat} {h : SharedPtr}
    (howned : Owned m' C' {this} raw) (hget : cellOf m'.handles this = some h)
    (hlost : ∀ j, j ∈ m.live → j ∉ C' → j ≠ this → cellOf m'.handles j = none)
    (hframe : ∀ j, j ∉ m.live → cellOf m'.handles j = cellOf m.handles j) :
    m'.live = insert this C' := by
  ext j
  rw [Finset.mem_insert, mem_live_iff]
  constructor
  · rintro ⟨k, hk⟩
    by_contra hn
    rw [not_or] at hn
    by_cases hj : j ∈ m.live
    · rw [hlost j hj hn.2 hn.1] at hk
      cases hk
    · exact hj (mem_live_iff.mpr ⟨k, (hframe j hj).symm.trans hk⟩)
  · rintro (rfl | hj)
    · exact ⟨h, hget⟩
    · obtain ⟨k, hk, -⟩ := howned.refers j hj
      exact ⟨k, hk⟩

/-- The destructor of a handle that is no member of an object. -/
theorem Inv.step_destroy (hs : s.Inv) (hthis : this ∈ s.memory.live)
    (hmember : ∀ o, ¬ s.MemberOf this o) : StepMeets s (s.step (.destroy this)) := by
  obtain ⟨m', C', h, hrun, howned, hget, hsub, hlost, hframe, hobjects, hlen⟩ :=
    hs.owned.release hs.bound (hs.closed_falls fun o _ => hmember o) hthis
  -- The handle is null now, and does not count.
  have hnot : this ∉ C' := fun hmem => Finset.notMem_erase this _ (hsub hmem)
  have hlive' := live_of_release howned hget (fun j hj hn hne => (hlost j hj hn hne).1) hframe
  have hlive : (m'.setHandle this none).live = C' := by
    ext j
    have hset : cellOf (m'.setHandle this none).handles j = _ := cellOf_set (lt_of_cellOf hget) none
    rw [mem_live_iff, hset]
    by_cases hj : j = this
    · rw [if_pos hj]
      exact iff_of_false nofun fun hmem => hnot (hj ▸ hmem)
    · rw [if_neg hj, ← mem_live_iff, hlive', Finset.mem_insert, or_iff_right hj]
  -- Its cell can be taken away, as no object has it as a member.
  have howned' := howned.forget hnot fun o object hobject hmem =>
    hmember o ⟨object, hobjects o object hobject, hmem⟩
  rw [← hlive] at howned'
  show StepMeets s (s.memory.destroy s.memory.maxDepth this >>= _)
  unfold SharedMemory.destroy
  rw [hrun]
  refine hs.stepMeets_memory ⟨howned', ?_⟩ hlen
  show (m'.setHandle this none).live.card < _
  rw [hlive]
  exact Nat.lt_of_le_of_lt (Finset.card_le_card (hsub.trans (Finset.erase_subset _ _))) hs.bound

/-- `operator=`. -/
theorem Inv.step_assign (hs : s.Inv) (hthis : this ∈ s.memory.live)
    (hother : other ∈ s.memory.live) (hkeeps : s.Keeps (.assign this other)) :
    StepMeets s (s.step (.assign this other)) := by
  obtain ⟨h₀, hget₀⟩ := mem_live_iff.mp hthis
  show StepMeets s (cellAt .handle s.memory.handles this >>= _)
  rw [cellAt_bind hget₀]
  show StepMeets s ((if this ≠ other then _ else _) >>= _)
  by_cases hself : this = other
  · -- Nothing happens.
    rw [if_neg (not_not_intro hself)]
    exact hs.stepMeets_memory hs rfl
  · rw [if_pos hself]
    obtain ⟨m₁, C', h, hrun, howned, hget, hsub, hlost, hframe, -, hlen⟩ :=
      hs.owned.release hs.bound (hs.closed_falls fun o ho => (hkeeps hself o ho).1) hthis
    have hnot : this ∉ C' := fun hmem => Finset.notMem_erase this _ (hsub hmem)
    have hlive₁ := live_of_release howned hget (fun j hj hn hne => (hlost j hj hn hne).1) hframe
    -- The other handle is one of those that are left.
    have hother₁ : other ∈ C' := by
      by_contra hn
      obtain ⟨o, hfalls, hmember⟩ :=
        mem_memberOf_of_inZ (hlost other hother hn (Ne.symm hself)).2
      exact (hkeeps hself o hfalls).2 hmember
    obtain ⟨k, hk, -⟩ := howned.refers other hother₁
    -- The assigned handle does not count in between.
    have hcard : C'.card + 1 < 2147483648 := by
      have hle := Finset.card_le_card hsub
      rw [Finset.card_erase_of_mem hthis] at hle
      have hpos : 0 < s.memory.live.card := Finset.card_pos.mpr ⟨this, hthis⟩
      have hbound := hs.bound
      omega
    have hhandles : ∀ i, cellOf (m₁.setHandle this (some k)).handles i =
        if i = this then some k else cellOf m₁.handles i :=
      fun i => cellOf_set (lt_of_cellOf hget) _
    obtain ⟨m₂, hacquire, hsame, howned₂, hobjects⟩ := howned.acquire hother₁ hk hnot hcard
      hhandles rfl rfl rfl (Nat.le_of_eq List.length_set.symm)
    have hlive : m₂.live = insert this C' := by
      rw [live_insert fun i => (congrArg (cellOf · i) hsame).trans (hhandles i), hlive₁,
        Finset.insert_idem]
    rw [Finset.erase_singleton, ← hlive] at howned₂
    show StepMeets s ((s.memory.release s.memory.maxDepth this >>= _) >>= _)
    rw [hrun]
    show StepMeets s ((cellAt .handle m₁.handles other >>= _) >>= _)
    rw [cellAt_of_cellOf hk]
    show StepMeets s ((m₁.setHandle this (some k)).acquire k >>= _)
    rw [hacquire]
    refine hs.stepMeets_memory ⟨howned₂, ?_⟩ ((congrArg List.length hobjects).trans hlen)
    show m₂.live.card < _
    rw [hlive]
    exact Nat.lt_of_le_of_lt (Finset.card_insert_le _ _) hcard

/-- A step of a program. -/
theorem Inv.step (hs : s.Inv) {op : Op T} (hop : s.Allows op) (hkeeps : s.Keeps op) :
    StepMeets s (s.step op) := by
  cases op with
  | new value members => exact hs.step_new value hop
  | construct ptr => exact hs.step_construct hop.1 hop.2
  | copyConstruct other => exact hs.step_copyConstruct hop.1 hop.2
  | assign this other => exact hs.step_assign hop.1 hop.2 hkeeps
  | destroy this => exact hs.step_destroy hop.1 hop.2

/-! ### Runs -/

/-- A run keeps the invariant, and the step after it meets its conditions. The induction is on the
steps. -/
theorem Inv.run (hs : s.Inv) {ops : List (Op T)} (hops : s.MeetsAll Allows ops)
    (hkeeps : s.MeetsAll Keeps ops) {pre : List (Op T)} (hpre : pre <+: ops) :
    ∃ s', s.run pre = .ok s' ∧ s'.Inv ∧
      ∀ op, pre ++ [op] <+: ops → s'.Allows op ∧ s'.Keeps op := by
  induction ops generalizing s pre with
  | nil =>
    rw [List.prefix_nil.mp hpre]
    exact ⟨s, rfl, hs, fun op hop => nomatch List.prefix_nil.mp hop⟩
  | cons first ops ih =>
    obtain ⟨hfirst, hrest⟩ := hops
    obtain ⟨hkeep, hkeepRest⟩ := hkeeps
    cases pre with
    | nil =>
      refine ⟨s, rfl, hs, fun op hop => ?_⟩
      rw [(List.cons_prefix_cons.mp hop).1]
      exact ⟨hfirst, hkeep⟩
    | cons op pre =>
      obtain ⟨rfl, hpre'⟩ := List.cons_prefix_cons.mp hpre
      -- The first step is made, and the others start from the state after it.
      obtain ⟨s₁, hstep, hs₁, -⟩ := hs.step hfirst hkeep
      obtain ⟨s', hrun, hs', hnext⟩ := ih hs₁ (hrest s₁ hstep) (hkeepRest s₁ hstep) hpre'
      refine ⟨s', ?_, hs', fun op' hop => hnext op' (List.cons_prefix_cons.mp hop).2⟩
      show (s.step op >>= fun s₁ => s₁.run pre) = _
      rw [hstep]
      exact hrun

/-- Shared ownership: every counter is right, and every object that was given to a handle exists as
long as it has one, and is deleted once. -/
structure Shares (s : State T) : Prop where
  /-- A handle is null, or its object and its counter exist, and the counter is the number of the
  handles that point to the object. -/
  handle : ∀ i, i ∈ s.memory.live → (s.memory.ptrAt i = none ∧ s.memory.countAt i = none) ∨
    ∃ o c object, s.memory.ptrAt i = some o ∧ s.memory.countAt i = some c ∧
      cellOf s.memory.objects o = some object ∧
      cellOf s.memory.counters c = some (s.handlesTo o : Int)
  /-- The handles of an object, and no others, have its counter. -/
  agree : ∀ i, i ∈ s.memory.live → ∀ k, k ∈ s.memory.live →
    (s.memory.ptrAt i = s.memory.ptrAt k ↔ s.memory.countAt i = s.memory.countAt k)
  /-- The handles among the members of an object exist as long as it does. -/
  member : ∀ o i, s.MemberOf i o → i ∈ s.memory.live
  deleted_iff : ∀ o, o < s.memory.objects.length →
    (o ∈ s.memory.deleted ↔ o ∉ s.raw ∧ s.handlesTo o = 0)
  empty_iff : ∀ o, s.memory.objects[o]? = some none ↔ o ∈ s.memory.deleted
  nodup : s.memory.deleted.Nodup

/-- Every handle shares the object that it points to. -/
theorem Inv.shares (hs : s.Inv) : s.Shares where
  handle i hi := by
    obtain ⟨h, hget, hnull | ⟨o, c, object, hp, hc, hobject, -, hcount⟩⟩ := hs.owned.refers i hi
    · exact .inl ⟨(ptrAt_of_cellOf hget).trans hnull.1, (countAt_of_cellOf hget).trans hnull.2⟩
    · exact .inr ⟨o, c, object, (ptrAt_of_cellOf hget).trans hp, (countAt_of_cellOf hget).trans hc,
        hobject, hcount⟩
  agree := hs.owned.agree
  member o i hmember := by
    obtain ⟨object, hobject, hmem⟩ := hmember
    have hlive := hs.owned.members o object hobject i hmem
    rwa [Finset.union_empty] at hlive
  deleted_iff := hs.owned.deleted_iff
  empty_iff := hs.owned.empty_iff
  nodup := hs.owned.nodup

/-- `count` is the number of the handles that point to the same object. -/
theorem Shares.count (hs : s.Shares) (hi : i ∈ s.memory.live) (hp : s.memory.ptrAt i = some o) :
    SharedPtr.count s.memory i = .ok (s.handlesTo o) := by
  obtain ⟨h, hget⟩ := mem_live_iff.mp hi
  rcases hs.handle i hi with ⟨hnull, -⟩ | ⟨o', c, object, hp', hc, -, hcount⟩
  · rw [hnull] at hp
    cases hp
  · rw [hp'] at hp
    obtain rfl := Option.some.inj hp
    rw [countAt_of_cellOf hget] at hc
    unfold SharedPtr.count SharedMemory.handleAt
    rw [cellAt_bind hget, hc]
    exact cellAt_of_cellOf hcount

/-- `operator*` of a handle that is not null reads an object that exists. -/
theorem Shares.deref (hs : s.Shares) (hi : i ∈ s.memory.live) (hp : s.memory.ptrAt i = some o) :
    ∃ v, SharedPtr.deref s.memory i = .ok v := by
  obtain ⟨h, hget⟩ := mem_live_iff.mp hi
  rcases hs.handle i hi with ⟨hnull, -⟩ | ⟨o', c, object, hp', -, hobject, -⟩
  · rw [hnull] at hp
    cases hp
  · rw [ptrAt_of_cellOf hget] at hp'
    refine ⟨object.value, ?_⟩
    unfold SharedPtr.deref SharedMemory.handleAt
    rw [cellAt_bind hget, hp']
    show (cellAt .deleted s.memory.objects o' >>= _) = _
    rw [cellAt_bind hobject]
    rfl

/-- At every point of a program whose assignments keep their handles, ownership is shared, and the
next step deletes exactly the objects that lose their last handle. -/
theorem run_shares {ops : List (Op T)} (hops : ({} : State T).MeetsAll Allows ops)
    (hkeeps : ({} : State T).MeetsAll Keeps ops) (pre : List (Op T)) (hpre : pre <+: ops) :
    ∃ s, ({} : State T).run pre = .ok s ∧ s.Shares ∧
      ∀ op, pre ++ [op] <+: ops → ∃ s', s.step op = .ok s' ∧ s.DeletesAtLast s' := by
  obtain ⟨s, hrun, hs, hnext⟩ := inv_empty.run hops hkeeps hpre
  refine ⟨s, hrun, hs.shares, fun op hop => ?_⟩
  obtain ⟨hallows, hkeep⟩ := hnext op hop
  obtain ⟨s', hstep, -, hdeletes⟩ := hs.step hallows hkeep
  exact ⟨s', hstep, hdeletes⟩

/-- One operation meets a condition, and the rest do. -/
theorem MeetsAll.cons {P : State T → Op T → Prop} {op : Op T} {ops : List (Op T)} (hop : P s op)
    (hstep : s.step op = .ok s') (hops : s'.MeetsAll P ops) : s.MeetsAll P (op :: ops) := by
  refine ⟨hop, fun s₁ hs₁ => ?_⟩
  rw [hstep] at hs₁
  obtain rfl := Except.ok.inj hs₁
  exact hops

/-- The objects that have the handle as a member, one after the other. -/
theorem forall_memberOf {P : Nat → Prop}
    (h : ∀ o, o < s.memory.objects.length → ∀ object, object ∈ cellOf s.memory.objects o →
      i ∈ object.members → P o) : ∀ o, s.MemberOf i o → P o := by
  rintro o ⟨object, hobject, hmem⟩
  exact h o (lt_of_cellOf hobject) object hobject hmem

/-- An assignment between two handles that are no members keeps them. -/
theorem keeps_of_not_memberOf (hthis : ∀ o, ¬ s.MemberOf this o)
    (hother : ∀ o, ¬ s.MemberOf other o) : s.Keeps (.assign this other) :=
  fun _ o _ => ⟨hthis o, hother o⟩

/-- Members of an object are kept while the object has a third handle that is no member. -/
theorem keeps_of_handle {p : Nat} (hi : i ∈ s.memory.live) (hp : s.memory.ptrAt i = some p)
    (hne : i ≠ this) (hmember : ∀ o, ¬ s.MemberOf i o) (hthis : ∀ o, s.MemberOf this o → o = p)
    (hother : ∀ o, s.MemberOf other o → o = p) : s.Keeps (.assign this other) := by
  have hstays : ¬ s.Falls this p := by
    intro hfalls
    cases hfalls with
    | intro hpos hex hall =>
      obtain ⟨o', ho'⟩ := hex i hi hp hne
      exact hmember o' ho'
  intro _ o hfalls
  exact ⟨fun hmem => hstays (hthis o hmem ▸ hfalls), fun hmem => hstays (hother o hmem ▸ hfalls)⟩

/-- A list of two nodes. A node has a handle to the next one as its member, 0 in the first node and
2 in the second one. The handle 1 is the list. -/
def twoNodes : List (Op Nat) :=
  [.new 5 1, .construct (some 0), .new 6 1, .construct (some 1), .assign 0 3, .destroy 3]

/-- Takes the first node from the list, with `t = p->next` and `p = t`. All handles are destroyed in
the end. -/
def popFrontCopied : List (Op Nat) :=
  twoNodes ++ [.copyConstruct 0, .assign 1 4, .destroy 4, .destroy 1]

/-- The two nodes are made by operations that are allowed. -/
theorem allows_twoNodes {ops : List (Op Nat)}
    (hops : ∀ s, ({} : State Nat).run twoNodes = .ok s → s.MeetsAll Allows ops) :
    ({} : State Nat).MeetsAll Allows (twoNodes ++ ops) := by
  refine .cons (show Room _ _ by decide) rfl ?_
  refine .cons ⟨fun p hp => ?_, by decide⟩ rfl ?_
  · obtain rfl := Option.some.inj hp
    decide
  refine .cons (show Room _ _ by decide) rfl ?_
  refine .cons ⟨fun p hp => ?_, by decide⟩ rfl ?_
  · obtain rfl := Option.some.inj hp
    decide
  refine .cons ⟨by decide, by decide⟩ rfl ?_
  exact .cons ⟨by decide, forall_memberOf (by decide)⟩ rfl (hops _ rfl)

/-- All operations of the list are allowed. -/
theorem allows_popFrontCopied : ({} : State Nat).MeetsAll Allows popFrontCopied := by
  refine allows_twoNodes fun s hs => ?_
  obtain rfl := Except.ok.inj hs
  refine .cons ⟨by decide, by decide⟩ rfl ?_
  refine .cons ⟨by decide, by decide⟩ rfl ?_
  refine .cons ⟨by decide, forall_memberOf (by decide)⟩ rfl ?_
  exact .cons ⟨by decide, forall_memberOf (by decide)⟩ rfl trivial

/-- The assignment is between two handles of which neither is deleted on the way. -/
theorem keeps_popFrontCopied : ({} : State Nat).MeetsAll Keeps popFrontCopied := by
  refine .cons trivial rfl (.cons trivial rfl (.cons trivial rfl (.cons trivial rfl ?_)))
  refine .cons (keeps_of_handle (i := 1) (p := 0) (by decide) rfl (by decide)
    (forall_memberOf (by decide)) (forall_memberOf (by decide)) (forall_memberOf (by decide)))
    rfl ?_
  refine .cons trivial rfl (.cons trivial rfl ?_)
  refine .cons (keeps_of_not_memberOf (forall_memberOf (by decide)) (forall_memberOf (by decide)))
    rfl ?_
  exact .cons trivial rfl (.cons trivial rfl trivial)

/-- The first node was deleted, with its member, and the second one is deleted in the end. -/
theorem run_shares_popFrontCopied :
    ∃ s, ({} : State Nat).run (popFrontCopied.take 9) = .ok s ∧ s.Shares ∧
      ∀ op, popFrontCopied.take 9 ++ [op] <+: popFrontCopied →
        ∃ s', s.step op = .ok s' ∧ s.DeletesAtLast s' :=
  run_shares allows_popFrontCopied keeps_popFrontCopied _ (List.take_prefix 9 _)

example : (({} : State Nat).run popFrontCopied).map (·.memory.deleted) = .ok [0, 1] := rfl

/-- Takes the first node from the list, with `p = p->next`. -/
def popFront : List (Op Nat) := twoNodes ++ [.assign 1 0]

/-- `Release` deletes the node that `p->next` lies in, before `operator=` reads it. -/
theorem not_run_shares_popFront : ({} : State Nat).MeetsAll Allows popFront ∧
    ({} : State Nat).run popFront = .error .handle := by
  refine ⟨allows_twoNodes fun s hs => ?_, rfl⟩
  obtain rfl := Except.ok.inj hs
  exact ⟨⟨by decide, by decide⟩, fun s' hs' => nomatch hs'⟩

end State

end KernelEventsTrace.Driver.Std.SharedPtr
