import KernelEventsTrace.Driver.Std.MapSpec
import KernelEventsTrace.Proofs.Map.Erase

/-!
# `KernelEventsTrace.Proofs.Map.Refinement`: `Map` refines the finite map

`exec_spec`: a call on a well-formed map succeeds, keeps the map well-formed, and does what
`Spec.exec` does on the finite map with the same entries.

`execAll_construct`: so every sequence of calls on a default-constructed map gives the
results that it gives on the empty finite map.
-/

set_option autoImplicit false

namespace KernelEventsTrace.Driver.Std.Map

open KernelEventsTrace.RedBlack
open KernelEventsTrace.RedBlack.RbPath (plug before after)
open KernelEventsTrace.OrdMap

variable {K V : Type} {compare : K → K → Bool}

/-- The entries of a tree, in order, as the caller sees them. -/
def entries (t : RbTree (Entry K V)) : List (K × V) := t.toList.map fun e => (e.key, e.val)

/-! ### Entries of a well-formed map -/

/-- The node of an entry. -/
theorem Rep.get_of_mem {m : Map K V} {t : RbTree (Entry K V)} (h : m.Rep t) {e : Entry K V}
    (he : e ∈ t.toList) :
    e.addr ≠ m.nil ∧ ∃ n, m.node e.addr = .ok n ∧ n.key = e.key ∧ n.val = e.val := by
  obtain ⟨pre, post, hl⟩ := List.append_of_mem he
  obtain ⟨p, c, l, r, rfl, -, -⟩ := RbPath.exists_plug_of_toList hl
  exact ⟨h.addr_ne_nil (d := .left), _, h.node_join (d := .left), rfl, rfl⟩

/-- An iterator to an entry shows that entry. -/
theorem Rep.deref_of_mem {m : Map K V} {t : RbTree (Entry K V)} (h : m.Rep t) {e : Entry K V}
    (he : e ∈ t.toList) : m.deref e.addr = .ok (some (e.key, e.val)) := by
  obtain ⟨hne, n, hn, hk, hv⟩ := h.get_of_mem he
  unfold deref
  rw [if_neg (show e.addr ≠ m.endIt from hne)]
  simp only [hn, bind, Except.bind, hk, hv, pure, Except.pure]

/-- `End()` shows no entry. -/
theorem deref_end (m : Map K V) : m.deref m.nil = .ok none := by
  unfold deref
  rw [if_pos (show m.nil = m.endIt from rfl)]
  rfl

section
variable [StrictWeak compare]

omit [StrictWeak compare] in
/-- Around an entry of a sorted sequence no other entry has an equivalent key. -/
theorem Sorted.not_equiv {pre post : List (Entry K V)} {e : Entry K V}
    (h : Sorted compare (pre ++ e :: post)) {x : Entry K V} (hx : x ∈ pre ++ post) :
    ¬ Equiv compare e.key x.key := by
  unfold Sorted at h
  simp only [List.pairwise_append, List.pairwise_cons, List.mem_cons] at h
  intro heq
  rcases List.mem_append.mp hx with hx | hx
  · exact not_equiv_of_lt (h.2.2 x hx e (Or.inl rfl)) heq.symm
  · exact not_equiv_of_lt (h.2.1.1 x hx) heq

omit [StrictWeak compare] in
/-- A sorted sequence has one entry for each class of keys. -/
theorem Sorted.pairwise {t : RbTree (Entry K V)} (h : Sorted compare t.toList) :
    (entries t).Pairwise fun a b => ¬ Equiv compare a.1 b.1 := by
  unfold entries
  rw [List.pairwise_map]
  exact h.imp fun hlt => not_equiv_of_lt hlt

/-- The entries besides the one of a class are those that are not in the class. -/
theorem mem_others_iff {pre post : List (Entry K V)} {e : Entry K V} {key : K}
    (h : Sorted compare (pre ++ e :: post)) (heq : Equiv compare key e.key) (x : K × V) :
    x ∈ (pre ++ post).map (fun e => (e.key, e.val)) ↔
      x ∈ (pre ++ e :: post).map (fun e => (e.key, e.val)) ∧ ¬ Equiv compare key x.1 := by
  constructor
  · intro hx
    obtain ⟨y, hy, rfl⟩ := List.mem_map.mp hx
    refine ⟨List.mem_map.mpr ⟨y, ?_, rfl⟩, fun hky => h.not_equiv hy (heq.symm.trans hky)⟩
    simp only [List.mem_append, List.mem_cons] at hy ⊢
    exact hy.imp_right Or.inr
  · rintro ⟨hx, hne⟩
    obtain ⟨y, hy, rfl⟩ := List.mem_map.mp hx
    refine List.mem_map.mpr ⟨y, ?_, rfl⟩
    simp only [List.mem_append, List.mem_cons] at hy ⊢
    rcases hy with hy | rfl | hy
    · exact Or.inl hy
    · exact absurd heq hne
    · exact Or.inr hy

/-- An insertion of an absent key is an insertion into the finite map. -/
theorem Inserted.holds {m m' : Map K V} {t t' : RbTree (Entry K V)} {key : K} {val : V} {z : Ptr}
    {F : FMap compare V} (h : Inserted compare m t key val z m' t')
    (hF : Holds (entries t) F) (hnone : ∀ e ∈ t.toList, ¬ Equiv compare key e.key) :
    Holds (entries t') (F.insert key val) := by
  obtain ⟨pre, post, hl, hl'⟩ := h.splits
  refine hF.insert ?_ ?_
  · intro x hx
    obtain ⟨e, he, rfl⟩ := List.mem_map.mp hx
    exact hnone e he
  · intro x
    unfold entries
    rw [hl, hl']
    simp only [List.map_append, List.map_cons, List.mem_append, List.mem_cons]
    exact or_left_comm

omit [StrictWeak compare] in
/-- The new entry is one of the entries. -/
theorem Inserted.mem {m m' : Map K V} {t t' : RbTree (Entry K V)} {key : K} {val : V} {z : Ptr}
    (h : Inserted compare m t key val z m' t') : (⟨z, key, val⟩ : Entry K V) ∈ t'.toList := by
  obtain ⟨pre, post, -, hl'⟩ := h.splits
  rw [hl']
  simp

/-- An entry of the map is found in the finite map. -/
theorem find_of_mem {t : RbTree (Entry K V)} {F : FMap compare V} (hF : Holds (entries t) F)
    {e : Entry K V} (he : e ∈ t.toList) {key : K} (heq : Equiv compare key e.key) :
    F.find key = some (e.key, e.val) :=
  hF.find (e := (e.key, e.val)) (List.mem_map.mpr ⟨e, he, rfl⟩) heq

/-- A key without an entry is not found in the finite map. -/
theorem find_of_none {t : RbTree (Entry K V)} {F : FMap compare V} (hF : Holds (entries t) F)
    {key : K} (hnone : ∀ e ∈ t.toList, ¬ Equiv compare key e.key) : F.find key = none := by
  refine hF.find_none fun x hx => ?_
  obtain ⟨e, he, rfl⟩ := List.mem_map.mp hx
  exact hnone e he

end

/-! ### `operator[]` and a write through its result -/

/-- Two changes, one after the other. -/
theorem Evolves.trans {m m' m'' : Map K V} {t t' t'' : RbTree (Entry K V)}
    (h : Evolves m t m' t') (h' : Evolves m' t' m'' t'') : Evolves m t m'' t'' := by
  refine ⟨h'.nil.trans h.nil, Nat.le_trans h.next h'.next, ?_, ?_⟩
  · intro q hq hqn hqt
    rw [h'.frame q (Nat.lt_of_lt_of_le hq h.next) (by rw [h.nil]; exact hqn) ?_,
      h.frame q hq hqn hqt]
    intro hqt'
    rcases h.fresh q hqt' with hm | hm
    · exact hqt hm
    · exact Nat.not_le_of_lt hq hm
  · intro a ha
    rcases h'.fresh a ha with hm | hm
    · exact h.fresh a hm
    · exact Or.inr (Nat.le_trans h.next hm)

/-- After `operator[]` the key has an entry, which the result names. -/
theorem index_entry [StrictWeak compare] [Inhabited V] {m : Map K V} {t : RbTree (Entry K V)}
    (h : m.WF compare t) {F : FMap compare V} (hF : Holds (entries t) F) (key : K) :
    ∃ m' t' e, m.index compare key = .ok (e.addr, m') ∧ WF compare m' t' ∧
      Evolves m t m' t' ∧ e ∈ t'.toList ∧ Equiv compare key e.key ∧
      Holds (entries t') (F.insert key default) := by
  rcases index_spec h key with ⟨e, he, heq, hm⟩ | ⟨hnone, m', t', hm', hins⟩
  · refine ⟨m, t, e, hm, h, Evolves.refl m t, he, heq, ?_⟩
    rw [hF.insert_of_mem (e := (e.key, e.val)) (List.mem_map.mpr ⟨e, he, rfl⟩) heq]
    exact hF
  · exact ⟨m', t', ⟨m.heap.next, key, default⟩, hm', hins.wf, hins.evolves, hins.mem,
      OrdMap.Equiv.refl key, hins.holds hF hnone⟩

/-- A write to the value of an entry. -/
theorem setVal_spec [StrictWeak compare] {m : Map K V} {t : RbTree (Entry K V)}
    (h : m.WF compare t) {F : FMap compare V} (hF : Holds (entries t) F) {e : Entry K V}
    (he : e ∈ t.toList) {key : K} (heq : Equiv compare key e.key) (val : V) :
    ∃ m' t', m.update e.addr (fun n => { n with val := val }) = .ok m' ∧ WF compare m' t' ∧
      Evolves m t m' t' ∧ Holds (entries t') (F.set key val) := by
  obtain ⟨pre, post, hl⟩ := List.append_of_mem he
  obtain ⟨p, c, l, r, rfl, rfl, rfl⟩ := RbPath.exists_plug_of_toList hl
  have hrep : m.Rep (plug p (RbTree.join .left c l e r)) := h.rep
  obtain ⟨m', hm', hrep, hc⟩ := updateCell_spec (e := e) c { e with val := val }
    (fun n => { n with val := val }) rfl (fun _ _ _ => rfl) hrep
  have hl' : (plug p (RbTree.join .left c l { e with val := val } r)).toList =
      (before p ++ l.toList) ++ { e with val := val } :: (r.toList ++ after p) :=
    RbPath.toList_plug_node p c l r _
  have hsize := h.size
  have hsorted := h.sorted
  rw [hl] at hsize hsorted
  have haddrs : treeAddrs (plug p (RbTree.join .left c l { e with val := val } r)) =
      treeAddrs (plug p (.node c l e r)) := by
    unfold treeAddrs
    rw [hl, hl']
    simp
  refine ⟨m', _, hm', ⟨hrep, isRedBlack_plug_elem (d := .left) _ h.redBlack, ?_, ?_⟩,
    ⟨hc.nil, Nat.le_of_eq hc.next.symm, fun q _ _ hq => hc.get q hq, fun a ha => ?_⟩, ?_⟩
  · rw [hl']
    unfold Sorted at hsorted ⊢
    simp only [List.pairwise_append, List.pairwise_cons, List.mem_cons] at hsorted ⊢
    refine ⟨hsorted.1, hsorted.2.1, ?_⟩
    intro a ha b hb
    rcases hb with rfl | hb
    · exact hsorted.2.2 a ha e (Or.inl rfl)
    · exact hsorted.2.2 a ha b (Or.inr hb)
  · rw [hc.size, hsize, hl']
    simp
  · rw [haddrs] at ha
    exact Or.inl ha
  · refine hF.set (e := (e.key, e.val)) (List.mem_map.mpr ⟨e, he, rfl⟩) heq fun x => ?_
    have hothers := mem_others_iff hsorted heq x
    unfold entries
    rw [hl, hl', ← hothers]
    simp only [List.map_append, List.map_cons, List.mem_append, List.mem_cons]
    exact or_left_comm

/-! ### The calls -/

/-- A call on a well-formed map succeeds, keeps the invariant, and does what it does on the
finite map with the same entries. -/
theorem exec_spec [StrictWeak compare] [Inhabited V] {m : Map K V} {t : RbTree (Entry K V)}
    (h : m.WF compare t) {F : FMap compare V} (hF : Holds (entries t) F) (op : Op K V) :
    ∃ m' t', m.exec compare op = .ok ((Spec.exec F op).1, m') ∧ WF compare m' t' ∧
      Evolves m t m' t' ∧ Holds (entries t') (Spec.exec F op).2 := by
  cases op with
  | insert key val =>
    rcases insert_spec h key val with ⟨e, he, heq, m', hm', hwf, hev⟩ | ⟨hnone, m', t', hm', hins⟩
    · refine ⟨m', t, ?_, hwf, hev, ?_⟩
      · simp only [exec, hm', bind, Except.bind, hwf.rep.deref_of_mem he, Spec.exec,
          find_of_mem hF he heq, pure, Except.pure]
      · simp only [Spec.exec, find_of_mem hF he heq]
        exact hF
    · refine ⟨m', t', ?_, hins.wf, hins.evolves, ?_⟩
      · have hd := hins.wf.rep.deref_of_mem hins.mem
        simp only [exec, hm', bind, Except.bind, hd, Spec.exec, find_of_none hF hnone, pure,
          Except.pure]
      · simp only [Spec.exec, find_of_none hF hnone]
        exact hins.holds hF hnone
  | index key =>
    obtain ⟨m', t', e, hm', hwf, hev, he, heq, hF'⟩ := index_entry h hF key
    obtain ⟨-, n, hn, -, hv⟩ := hwf.rep.get_of_mem he
    refine ⟨m', t', ?_, hwf, hev, hF'⟩
    simp only [exec, hm', bind, Except.bind, hn, Spec.exec, Spec.valueAt,
      find_of_mem hF' he heq, hv, pure, Except.pure]
  | assign key val =>
    obtain ⟨m1, t1, e, hm1, hwf1, hev1, he, heq, hF1⟩ := index_entry h hF key
    obtain ⟨m2, t2, hm2, hwf2, hev2, hF2⟩ := setVal_spec hwf1 hF1 he heq val
    refine ⟨m2, t2, ?_, hwf2, hev1.trans hev2, hF2⟩
    simp only [exec, hm1, bind, Except.bind, hm2, Spec.exec, pure, Except.pure]
  | erase key =>
    rcases erase_spec h key with ⟨pre, e, post, hl, heq, m', t', hm', hwf, hev, hl'⟩ | ⟨hnone, hm'⟩
    · refine ⟨m', t', ?_, hwf, hev, hF.erase fun x => ?_⟩
      · have he : e ∈ t.toList := by
          rw [hl]
          simp
        simp only [exec, hm', bind, Except.bind, Spec.exec, Spec.occurrences,
          find_of_mem hF he heq, Option.isSome_some, if_true, pure, Except.pure]
      · have hs := h.sorted
        rw [hl] at hs
        unfold entries
        rw [hl, hl']
        exact mem_others_iff hs heq x
    · refine ⟨m, t, ?_, h, Evolves.refl m t, hF.erase fun x => ?_⟩
      · simp only [exec, hm', bind, Except.bind, Spec.exec, Spec.occurrences,
          find_of_none hF hnone, Option.isSome_none, Bool.false_eq_true, if_false, pure,
          Except.pure]
      · constructor
        · intro hx
          refine ⟨hx, ?_⟩
          obtain ⟨e, he, rfl⟩ := List.mem_map.mp hx
          exact hnone e he
        · exact fun hx => hx.1
  | find key =>
    refine ⟨m, t, ?_, h, Evolves.refl m t, hF⟩
    rcases find_spec h key with ⟨e, he, heq, hm'⟩ | ⟨hnone, hm'⟩
    · simp only [exec, hm', bind, Except.bind, h.rep.deref_of_mem he, Spec.exec,
        find_of_mem hF he heq, pure, Except.pure]
    · simp only [exec, hm', bind, Except.bind, deref_end, Spec.exec, find_of_none hF hnone, pure,
        Except.pure]
  | count key =>
    refine ⟨m, t, ?_, h, Evolves.refl m t, hF⟩
    rcases find_spec h key with ⟨e, he, heq, hm'⟩ | ⟨hnone, hm'⟩
    · have hne : e.addr ≠ m.endIt := (h.rep.get_of_mem he).1
      simp only [exec, count, hm', bind, Except.bind, ne_eq, hne, not_false_eq_true, if_true,
        Spec.exec, Spec.occurrences, find_of_mem hF he heq, Option.isSome_some, pure, Except.pure]
    · simp [exec, count, hm', bind, Except.bind, endIt, Spec.exec, Spec.occurrences,
        find_of_none hF hnone, pure, Except.pure]
  | size =>
    refine ⟨m, t, ?_, h, Evolves.refl m t, hF⟩
    have hsize : F.size = m.size := by
      rw [hF.size h.sorted.pairwise, h.size]
      simp [entries]
    simp only [exec, Spec.exec, hsize, pure, Except.pure]
  | clear =>
    obtain ⟨m', hm', hwf, hev⟩ := clear_spec h
    refine ⟨m', .nil, ?_, hwf, hev, Holds.nil⟩
    simp only [exec, hm', bind, Except.bind, Spec.exec, pure, Except.pure]

/-- A sequence of calls on a well-formed map. -/
theorem execAll_spec [StrictWeak compare] [Inhabited V] (ops : List (Op K V)) :
    ∀ {m : Map K V} {t : RbTree (Entry K V)} {F : FMap compare V},
      m.WF compare t → Holds (entries t) F →
      ∃ m' t', m.execAll compare ops = .ok ((Spec.execAll F ops).1, m') ∧ WF compare m' t' ∧
        Holds (entries t') (Spec.execAll F ops).2 := by
  induction ops with
  | nil =>
    intro m t F h hF
    exact ⟨m, t, rfl, h, hF⟩
  | cons op ops ih =>
    intro m t F h hF
    obtain ⟨m1, t1, hm1, h1, -, hF1⟩ := exec_spec h hF op
    obtain ⟨m2, t2, hm2, h2, hF2⟩ := ih h1 hF1
    refine ⟨m2, t2, ?_, h2, hF2⟩
    simp only [execAll, hm1, bind, Except.bind, hm2, Spec.execAll, pure, Except.pure]

end KernelEventsTrace.Driver.Std.Map
