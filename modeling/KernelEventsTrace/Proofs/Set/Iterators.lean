import KernelEventsTrace.Driver.Std.SetSpec
import KernelEventsTrace.Proofs.Set.Agreement

/-!
# `KernelEventsTrace.Proofs.Set.Iterators`: programs over `Set` mean programs over a finite set

The iterators of `Set` simulate those of `Map` (`Same.increment`, `Same.decrement`), so the results
about maps carry over to a set as a map without values. `Refines` relates the memory of a caller
to the abstract one: the tree has the members in order, and an iterator variable is at the node
of the member that its cursor is on. A statement keeps it (`Refines.step`), so a whole program
shows what it shows on the finite set (`SetProgram.run_shows`).
-/

set_option autoImplicit false

namespace KernelEventsTrace.Driver.Std

open KernelEventsTrace.RedBlack
open KernelEventsTrace.OrdMap (StrictWeak lt_asymm not_equiv_of_lt)
open KernelEventsTrace.OrdSet
open KernelEventsTrace.Simulation

variable {K V : Type} {compare : K → K → Bool}

/-! ### The iterators of `Set` simulate those of `Map` -/

section
variable {β : Ptr → Ptr → Prop} (hβ : Pairing β) {m : Map K V} {s : Set K} (h : Same β m s)
  {p p' y y' : Ptr}

include hβ h

/-- The walk to the rightmost node only reads. -/
theorem Same.maximumLoop (fuel : Nat) (hp : β p p') :
    Sim β (Map.extremeLoop .right fuel m p) (Set.maximumLoop fuel s p') := by
  induction fuel generalizing p p' with
  | zero => exact Sim.error
  | succ fuel ih =>
    unfold Map.extremeLoop Set.maximumLoop
    refine Sim.bind (h.node hp) fun n n' hn => ?_
    exact Sim.ite (not_congr (hβ.eq_iff hn.right h.nil)) (ih hn.right) (Sim.pure hp)

/-- The climb to the first ancestor with the node on its left. -/
theorem Same.successorLoop (fuel : Nat) (hp : β p p') (hy : β y y') :
    Sim β (Map.climbLoop .right fuel m p y) (Set.successorLoop fuel s p' y') := by
  induction fuel generalizing p p' y y' with
  | zero => exact Sim.error
  | succ fuel ih =>
    unfold Map.climbLoop Set.successorLoop
    refine Sim.ite (not_congr (hβ.eq_iff hy h.nil)) ?_ (Sim.pure hy)
    refine Sim.bind (h.node hy) fun n n' hn => ?_
    refine Sim.ite (hβ.eq_iff hp hn.right) ?_ (Sim.pure hy)
    exact Sim.bind (h.node hy) fun n n' hn => ih hy hn.parent

/-- The climb to the first ancestor with the node on its right. -/
theorem Same.predecessorLoop (fuel : Nat) (hp : β p p') (hy : β y y') :
    Sim β (Map.climbLoop .left fuel m p y) (Set.predecessorLoop fuel s p' y') := by
  induction fuel generalizing p p' y y' with
  | zero => exact Sim.error
  | succ fuel ih =>
    unfold Map.climbLoop Set.predecessorLoop
    refine Sim.ite (not_congr (hβ.eq_iff hy h.nil)) ?_ (Sim.pure hy)
    refine Sim.bind (h.node hy) fun n n' hn => ?_
    refine Sim.ite (hβ.eq_iff hp hn.left) ?_ (Sim.pure hy)
    exact Sim.bind (h.node hy) fun n n' hn => ih hy hn.parent

/-- `Begin` is the leftmost node. -/
theorem Same.begin' : Sim β m.begin' s.begin' := by
  unfold Map.begin' Map.minimum Set.begin' Set.minimum
  rw [h.fuel]
  exact h.minimumLoop hβ m.fuel h.root

/-- The next node in order. -/
theorem Same.increment (hp : β p p') : Sim β (m.increment p) (s.increment p') := by
  unfold Map.increment Set.increment
  refine Sim.ite (hβ.eq_iff hp h.nil) (Sim.ok hp) ?_
  unfold Map.successor Map.neighbour Set.successor Set.minimum
  rw [h.fuel]
  refine Sim.bind (h.node hp) fun n n' hn => ?_
  refine Sim.ite (not_congr (hβ.eq_iff hn.right h.nil)) (h.minimumLoop hβ m.fuel hn.right) ?_
  exact Sim.bind (h.node hp) fun n n' hn => h.successorLoop hβ m.fuel hp hn.parent

/-- The node before, in order. -/
theorem Same.decrement (hp : β p p') : Sim β (m.decrement p) (s.decrement p') := by
  unfold Map.decrement Set.decrement Map.maximum Set.maximum
  rw [h.fuel]
  refine Sim.ite (hβ.eq_iff hp h.nil) (h.maximumLoop hβ m.fuel h.root) ?_
  unfold Map.predecessor Map.neighbour Set.predecessor Set.maximum
  rw [h.fuel]
  refine Sim.bind (h.node hp) fun n n' hn => ?_
  refine Sim.ite (not_congr (hβ.eq_iff hn.left h.nil)) (h.maximumLoop hβ m.fuel hn.left) ?_
  exact Sim.bind (h.node hp) fun n n' hn => h.predecessorLoop hβ m.fuel hp hn.parent

end

/-- A memory is paired with itself. -/
theorem eq_pairing : Pairing (Eq : Ptr → Ptr → Prop) where
  unique := ⟨fun _ _ _ h h' => h.trans h'.symm, fun _ _ _ h h' => h.symm.trans h'⟩
  null := rfl
  next _ _ _ h := congrArg (· + 1) h

/-- A loop over iterators whose steps have the same results. -/
theorem visited_sim {I : Type} [DecidableEq I] {f g : I → Except Fault I}
    (h : ∀ i, Sim Eq (f i) (g i)) (fuel : Nat) (i j : I) :
    Sim Eq (visited f fuel i j) (visited g fuel i j) := by
  induction fuel generalizing i with
  | zero => exact Sim.error
  | succ fuel ih =>
    unfold visited
    refine Sim.ite Iff.rfl ?_ (Sim.pure rfl)
    refine Sim.bind (h i) fun i' i'' hi => ?_
    rw [← hi]
    refine Sim.bind (ih i') fun is is' his => Sim.pure ?_
    rw [his]

/-! ### The memory of a caller and the finite set -/

/-- The node, or the sentinel, that a cursor stands for. -/
def Denotes (nil : Ptr) (t : RbTree (Entry K Unit)) : Cursor K → Iterator → Prop
  | .on k, it => ∃ e ∈ t.toList, e.key = k ∧ it = e.addr
  | .atEnd, it => it = nil
  | .gone, _ => True

/-- The memory of a caller holds the finite set. The map `m` is the set with the same nodes, as a
map without values. -/
structure Refines (a : SetModel compare) (p : SetProgram K) (m : Map K Unit)
    (t : RbTree (Entry K Unit)) : Prop where
  same : Same Eq m p.set
  wf : m.WF compare t
  keys : a.set.keys = t.toList.map Entry.key
  vars : ∀ i, Denotes m.nil t (a.vars i) (p.vars i)

section
variable {nil : Ptr} {t t' : RbTree (Entry K Unit)} {pre post : List (Entry K Unit)}
  {e : Entry K Unit} {c : Cursor K} {it : Iterator}

/-- The position in front of some entries is the node of the first one. -/
theorem denotes_front (hl : t.toList = pre ++ post) :
    Denotes nil t (.front (post.map Entry.key)) (Map.headAddr nil post) := by
  cases post with
  | nil => rfl
  | cons e post =>
    refine ⟨e, ?_, rfl, rfl⟩
    rw [hl]
    simp

/-- An entry that stays keeps its iterators. -/
theorem Denotes.mono (h : Denotes nil t c it) (hsub : ∀ f ∈ t.toList, f ∈ t'.toList) :
    Denotes nil t' c it := by
  cases c with
  | on k =>
    obtain ⟨f, hf, hk, hit⟩ := h
    exact ⟨f, hsub f hf, hk, hit⟩
  | atEnd => exact h
  | gone => trivial

/-- An entry that leaves takes its iterators with it, and no others. -/
theorem Denotes.leave [StrictWeak compare] {key : K} (h : Denotes nil t c it)
    (hl : t.toList = pre ++ e :: post) (hl' : t'.toList = pre ++ post)
    (heq : OrdMap.Equiv compare key e.key) : Denotes nil t' (c.leave compare key) it := by
  cases c with
  | on k =>
    obtain ⟨f, hf, hk, hit⟩ := h
    unfold Cursor.leave
    by_cases hkey : OrdMap.Equiv compare key k
    · simp [hkey, Denotes]
    · have hne : f ≠ e := fun hfe => hkey (by rw [← hk, hfe]; exact heq)
      rw [hl, List.mem_append, List.mem_cons] at hf
      have hf' : f ∈ t'.toList := by
        rw [hl', List.mem_append]
        exact hf.imp_right fun hf => hf.resolve_left hne
      simp only [hkey, if_false]
      exact ⟨f, hf', hk, hit⟩
  | atEnd => exact h
  | gone => trivial

/-- A key that is no member takes no iterators with it. -/
theorem Denotes.leave_absent {key : K} (h : Denotes nil t c it)
    (hnone : ∀ f ∈ t.toList, ¬ OrdMap.Equiv compare key f.key) :
    Denotes nil t (c.leave compare key) it := by
  cases c with
  | on k =>
    obtain ⟨f, hf, rfl, hit⟩ := h
    unfold Cursor.leave
    simp only [hnone f hf, if_false]
    exact ⟨f, hf, rfl, hit⟩
  | atEnd => exact h
  | gone => trivial

end

/-- The tree is emptied. -/
theorem Denotes.leaveAll {nil : Ptr} {t t' : RbTree (Entry K Unit)} {c : Cursor K} {it : Iterator}
    (h : Denotes nil t c it) : Denotes nil t' c.leaveAll it := by
  cases c with
  | on k => trivial
  | atEnd => exact h
  | gone => trivial

namespace Refines

variable [StrictWeak compare] {a : SetModel compare} {p : SetProgram K} {m : Map K Unit}
  {t : RbTree (Entry K Unit)} (h : Refines a p m t)

include h

/-! ### The queries -/

omit [StrictWeak compare] in
/-- The keys of the model are those of the tree. -/
theorem keys_split {pre post : List (Entry K Unit)} (hl : t.toList = pre ++ post) :
    a.set.keys = pre.map Entry.key ++ post.map Entry.key := by
  rw [h.keys, hl, List.map_append]

omit [StrictWeak compare] in
/-- A key that no entry has is not in the model. -/
theorem absent {key : K} (hnone : ∀ e ∈ t.toList, ¬ OrdMap.Equiv compare key e.key) :
    ∀ k ∈ a.set.keys, ¬ OrdMap.Equiv compare key k := by
  intro k hk
  rw [h.keys] at hk
  obtain ⟨e, he, rfl⟩ := List.mem_map.mp hk
  exact hnone e he

omit [StrictWeak compare] in
/-- The fuel of the loops is enough. -/
theorem size_le : t.toList.length ≤ m.size := Nat.le_of_eq h.wf.size.symm

omit [StrictWeak compare] in
/-- An iterator is put into a variable. -/
theorem store {c : Cursor K} {it : Iterator} (hc : Denotes m.nil t c it) (i : Nat) :
    Refines (a.store i c) (p.store i it) m t := by
  refine ⟨h.same, h.wf, h.keys, fun j => ?_⟩
  show Denotes m.nil t (Function.update a.vars i c j) (Function.update p.vars i it j)
  by_cases hj : j = i
  · subst hj
    rw [Function.update_self, Function.update_self]
    exact hc
  · rw [Function.update_of_ne hj, Function.update_of_ne hj]
    exact h.vars j

/-- `Find` gives the node of the key, or the end. -/
theorem find (key : K) : ∃ it, p.set.find compare key = .ok it ∧
    Denotes m.nil t (a.set.find key) it := by
  rcases Map.find_spec h.wf key with ⟨e, he, heq, hm⟩ | ⟨hnone, hm⟩
  · obtain ⟨it, hs, rfl⟩ := h.same.find eq_pairing key _ hm
    obtain ⟨pre, post, hl⟩ := List.append_of_mem he
    rw [FSet.find_split (h.keys_split hl) heq]
    exact ⟨_, hs, e, he, rfl, rfl⟩
  · obtain ⟨it, hs, rfl⟩ := h.same.find eq_pairing key _ hm
    rw [FSet.find_absent (h.absent hnone)]
    exact ⟨_, hs, rfl⟩

/-- `Count` is one or zero. -/
theorem count (key : K) :
    p.set.count compare key = .ok (if a.set.contains key then 1 else 0) := by
  rcases Map.find_spec h.wf key with ⟨e, he, heq, hm⟩ | ⟨hnone, hm⟩
  · have hne : e.addr ≠ m.endIt := (h.wf.rep.get_of_mem he).1
    have hcount : m.count compare key = .ok 1 := by
      simp only [Map.count, hm, bind, Except.bind, ne_eq, hne, not_false_eq_true, if_true, pure,
        Except.pure]
    obtain ⟨n, hs, rfl⟩ := h.same.count eq_pairing key _ hcount
    obtain ⟨pre, post, hl⟩ := List.append_of_mem he
    rw [FSet.contains_split (h.keys_split hl) heq]
    exact hs
  · have hcount : m.count compare key = .ok 0 := by
      simp [Map.count, hm, bind, Except.bind, Map.endIt, pure, Except.pure]
    obtain ⟨n, hs, rfl⟩ := h.same.count eq_pairing key _ hcount
    rw [FSet.contains_absent (h.absent hnone)]
    exact hs

/-- `LowerBound` gives the first key that is not less. -/
theorem lowerBound (key : K) : ∃ it, p.set.lowerBound compare key = .ok it ∧
    Denotes m.nil t (a.set.lowerBound key) it := by
  obtain ⟨pre, post, hm, hl, hpre, hpost⟩ := h.wf.lowerBound key
  obtain ⟨it, hs, rfl⟩ := h.same.lowerBound eq_pairing key _ hm
  refine ⟨_, hs, ?_⟩
  unfold FSet.lowerBound
  rw [h.keys_split hl, at_split]
  · exact denotes_front hl
  · intro k hk
    obtain ⟨e, he, rfl⟩ := List.mem_map.mp hk
    simpa using hpre e he
  · intro k hk
    obtain ⟨e, he, rfl⟩ := List.mem_map.mp hk
    simpa using hpost e he

/-- `UpperBound` gives the first key that is greater. -/
theorem upperBound (key : K) : ∃ it, p.set.upperBound compare key = .ok it ∧
    Denotes m.nil t (a.set.upperBound key) it := by
  obtain ⟨pre, post, hm, hl, hpre, hpost⟩ := h.wf.upperBound key
  obtain ⟨it, hs, rfl⟩ := h.same.upperBound eq_pairing key _ hm
  refine ⟨_, hs, ?_⟩
  unfold FSet.upperBound
  rw [h.keys_split hl, at_split]
  · exact denotes_front hl
  · intro k hk
    obtain ⟨e, he, rfl⟩ := List.mem_map.mp hk
    exact hpre e he
  · intro k hk
    obtain ⟨e, he, rfl⟩ := List.mem_map.mp hk
    exact hpost e he

/-! ### The iterators -/

omit [StrictWeak compare] in
/-- `Begin` gives the first key. -/
theorem begin' : ∃ it, p.set.begin' = .ok it ∧ Denotes m.nil t a.set.first it := by
  obtain ⟨it, hs, rfl⟩ := h.same.begin' eq_pairing _ (Map.begin_spec h.wf.rep h.size_le)
  refine ⟨_, hs, ?_⟩
  unfold FSet.first
  rw [h.keys]
  have hfront : t.toList = [] ++ t.toList := rfl
  exact denotes_front hfront

/-- An iterator of the model that can be moved on is moved on in the tree. -/
theorem increment {i : Nat} {c : Cursor K} (hc : a.set.next (a.vars i) = some c) :
    ∃ it, p.set.increment (p.vars i) = .ok it ∧ Denotes m.nil t c it := by
  have hvar := h.vars i
  cases hi : a.vars i with
  | on k =>
    rw [hi] at hc hvar
    obtain ⟨e, he, rfl, hit⟩ := hvar
    obtain ⟨pre, post, hl⟩ := List.append_of_mem he
    obtain rfl := Option.some.inj ((FSet.next_split (h.keys_split hl)).symm.trans hc)
    obtain ⟨it, hs, rfl⟩ :=
      h.same.increment eq_pairing rfl _ (Map.increment_spec h.wf.rep h.size_le hl)
    have hfront : t.toList = (pre ++ [e]) ++ post := by simp [hl]
    rw [hit]
    exact ⟨_, hs, denotes_front hfront⟩
  | atEnd =>
    rw [hi] at hc hvar
    obtain rfl := Option.some.inj hc
    refine ⟨m.nil, ?_, rfl⟩
    rw [show p.vars i = m.nil from hvar, h.same.nil]
    unfold Set.increment
    rw [if_pos rfl]
  | gone =>
    rw [hi] at hc
    cases hc

/-- An iterator of the model that can be moved back is moved back in the tree. -/
theorem decrement {i : Nat} {c : Cursor K} (hc : a.set.prev (a.vars i) = some c) :
    ∃ it, p.set.decrement (p.vars i) = .ok it ∧ Denotes m.nil t c it := by
  have hfront : ∀ pre post : List (Entry K Unit), t.toList = pre ++ post →
      Denotes m.nil t (.front (pre.map Entry.key).reverse) (Map.headAddr m.nil pre.reverse) := by
    intro pre post hl
    rw [← List.map_reverse]
    cases hrev : pre.reverse with
    | nil => rfl
    | cons f rest =>
      have hf : f ∈ pre := List.mem_reverse.mp (by rw [hrev]; exact List.mem_cons_self)
      exact ⟨f, by rw [hl]; exact List.mem_append_left post hf, rfl, rfl⟩
  have hvar := h.vars i
  cases hi : a.vars i with
  | on k =>
    rw [hi] at hc hvar
    obtain ⟨e, he, rfl, hit⟩ := hvar
    obtain ⟨pre, post, hl⟩ := List.append_of_mem he
    obtain rfl := Option.some.inj ((FSet.prev_split (h.keys_split hl)).symm.trans hc)
    obtain ⟨it, hs, rfl⟩ :=
      h.same.decrement eq_pairing rfl _ (Map.decrement_spec h.wf.rep h.size_le hl)
    rw [hit]
    exact ⟨_, hs, hfront pre (e :: post) hl⟩
  | atEnd =>
    rw [hi] at hc hvar
    obtain rfl := Option.some.inj hc
    obtain ⟨it, hs, rfl⟩ :=
      h.same.decrement eq_pairing rfl _ (Map.decrement_end h.wf.rep h.size_le)
    rw [show p.vars i = m.endIt from hvar, h.keys]
    exact ⟨_, hs, hfront t.toList [] (by simp)⟩
  | gone =>
    rw [hi] at hc
    cases hc

omit [StrictWeak compare] in
/-- `*it` at a member shows it. -/
theorem deref {e : Entry K Unit} (he : e ∈ t.toList) : p.set.deref e.addr = .ok e.key := by
  obtain ⟨-, n, hn, hk, -⟩ := h.wf.rep.get_of_mem he
  obtain ⟨n', hs, hn'⟩ := h.same.node rfl _ hn
  unfold Set.deref
  simp only [hs, bind, Except.bind, pure, Except.pure, ← hn'.key, hk]

/-- Two iterators to members are equal exactly if the members are equivalent. -/
theorem addr_eq_iff {e f : Entry K Unit} (he : e ∈ t.toList) (hf : f ∈ t.toList) :
    e.addr = f.addr ↔ OrdMap.Equiv compare e.key f.key := by
  constructor
  · intro haddr
    rw [List.inj_on_of_nodup_map h.wf.rep.nodup he hf haddr]
    exact OrdMap.Equiv.refl f.key
  · intro heq
    obtain ⟨pre, post, hl⟩ := List.append_of_mem he
    have hne := FSet.split_not_equiv (h.keys_split hl) (OrdMap.Equiv.refl e.key)
    rw [hl, List.mem_append, List.mem_cons] at hf
    rcases hf with hf | rfl | hf
    · exact absurd heq (hne f.key (Or.inl (List.mem_map_of_mem hf)))
    · rfl
    · exact absurd heq (hne f.key (Or.inr (List.mem_map_of_mem hf)))

/-- Two iterators are equal if they are at the same key, or both at the end. -/
theorem equal {i j : Nat} {b : Bool} (hb : (a.vars i).same compare (a.vars j) = some b) :
    decide (p.vars i = p.vars j) = b := by
  have hne : ∀ e ∈ t.toList, e.addr ≠ m.nil := fun e he => (h.wf.rep.get_of_mem he).1
  have hi := h.vars i
  have hj := h.vars j
  cases hci : a.vars i with
  | on k =>
    rw [hci] at hb hi
    obtain ⟨e, he, rfl, hit⟩ := hi
    cases hcj : a.vars j with
    | on k' =>
      rw [hcj] at hb hj
      obtain ⟨f, hf, rfl, hit'⟩ := hj
      obtain rfl := Option.some.inj hb
      rw [hit, hit']
      exact decide_eq_decide.mpr (h.addr_eq_iff he hf)
    | atEnd =>
      rw [hcj] at hb hj
      obtain rfl := Option.some.inj hb
      rw [hit, show p.vars j = m.nil from hj]
      exact decide_eq_false (hne e he)
    | gone =>
      rw [hcj] at hb
      cases hb
  | atEnd =>
    rw [hci] at hb hi
    rw [show p.vars i = m.nil from hi]
    cases hcj : a.vars j with
    | on k =>
      rw [hcj] at hb hj
      obtain ⟨e, he, rfl, hit⟩ := hj
      obtain rfl := Option.some.inj hb
      rw [hit]
      exact decide_eq_false fun heq => hne e he heq.symm
    | atEnd =>
      rw [hcj] at hb hj
      obtain rfl := Option.some.inj hb
      exact decide_eq_true (show p.vars j = m.nil from hj).symm
    | gone =>
      rw [hcj] at hb
      cases hb
  | gone =>
    rw [hci] at hb
    cases hb

/-! ### The loops -/

omit [StrictWeak compare] in
/-- The loop from `Begin()` to `End()` shows the members in order. -/
theorem forEach : ∃ first its, p.set.begin' = .ok first ∧
    visited p.set.increment (p.set.size + 1) first p.set.endIt = .ok its ∧
    its.mapM p.set.deref = .ok a.set.keys := by
  obtain ⟨⟨first, hfirst, hloop⟩, -⟩ := h.wf.rep.iterates h.size_le
  obtain ⟨_, hfirst', rfl⟩ := h.same.begin' eq_pairing _ hfirst
  obtain ⟨_, hloop', rfl⟩ :=
    visited_sim (fun it => h.same.increment eq_pairing (Eq.refl it)) _ _ _ _ hloop
  refine ⟨first, t.toList.map Entry.addr, hfirst', ?_, ?_⟩
  · rw [← h.same.size, h.wf.size]
    rw [show m.endIt = p.set.endIt from h.same.nil] at hloop'
    exact hloop'
  · have hshow : ∀ es : List (Entry K Unit), (∀ e ∈ es, e ∈ t.toList) →
        (es.map Entry.addr).mapM p.set.deref = .ok (es.map Entry.key) := by
      intro es hes
      induction es with
      | nil => rfl
      | cons e es ih =>
        have hrest := ih fun f hf => hes f (List.mem_cons_of_mem e hf)
        simp only [List.map_cons, List.mapM_cons, h.deref (hes e List.mem_cons_self), hrest, bind,
          Except.bind, pure, Except.pure]
    rw [h.keys]
    exact hshow t.toList fun e he => he

omit [StrictWeak compare] in
/-- A reverse iterator moves its base. -/
theorem reverseIncrement (rit : ReverseIterator) :
    Sim Eq (m.reverseIncrement rit) (p.set.reverseIncrement rit) := by
  unfold Map.reverseIncrement Set.reverseIncrement
  refine Sim.bind (h.same.decrement eq_pairing (Eq.refl rit.base)) fun it it' hit => Sim.pure ?_
  rw [hit]

omit [StrictWeak compare] in
/-- Where a reverse iterator of the map shows an entry, that of the set shows its key. -/
theorem reverseDeref {rit : ReverseIterator} {x : K × Unit}
    (hx : m.reverseDeref rit = .ok (some x)) : p.set.reverseDeref rit = .ok x.1 := by
  unfold Map.reverseDeref at hx
  cases hit : m.decrement rit.base with
  | error f => simp [hit, bind, Except.bind] at hx
  | ok it =>
    obtain ⟨_, hit', rfl⟩ := h.same.decrement eq_pairing (Eq.refl rit.base) _ hit
    simp only [hit, bind, Except.bind, Map.deref] at hx
    by_cases hend : it = m.endIt
    · simp [hend, pure, Except.pure] at hx
    · rw [if_neg hend] at hx
      cases hn : m.node it with
      | error f => simp [hn] at hx
      | ok n =>
        obtain ⟨n', hs, hn'⟩ := h.same.node (Eq.refl it) _ hn
        simp only [hn, pure, Except.pure, Except.ok.injEq, Option.some.injEq] at hx
        unfold Set.reverseDeref Set.deref
        simp only [hit', hs, bind, Except.bind, pure, Except.pure, ← hn'.key, ← hx]

omit [StrictWeak compare] in
/-- The loop from `RBegin()` to `REnd()` shows the members in reverse. -/
theorem forEachReverse : ∃ last rits, p.set.rEnd = .ok last ∧
    visited p.set.reverseIncrement (p.set.size + 1) p.set.rBegin last = .ok rits ∧
    rits.mapM p.set.reverseDeref = .ok a.set.keys.reverse := by
  obtain ⟨last, rits, hlast, hloop, hshow⟩ := h.wf.rep.reverseIterates h.size_le
  obtain ⟨_, hloop', rfl⟩ := visited_sim h.reverseIncrement _ _ _ _ hloop
  refine ⟨last, rits, ?_, ?_, ?_⟩
  · unfold Map.rEnd at hlast
    cases hfirst : m.begin' with
    | error f => simp [hfirst, bind, Except.bind] at hlast
    | ok first =>
      obtain ⟨_, hfirst', rfl⟩ := h.same.begin' eq_pairing _ hfirst
      rw [hfirst] at hlast
      unfold Set.rEnd
      rw [hfirst']
      exact hlast
  · rw [← h.same.size, h.wf.size]
    rw [show m.rBegin = p.set.rBegin from congrArg ReverseIterator.mk h.same.nil] at hloop'
    exact hloop'
  · have hkeys : ∀ (es : List (Entry K Unit)) (rits : List ReverseIterator),
        rits.mapM m.reverseDeref = .ok (es.map fun e => some (e.key, e.val)) →
          rits.mapM p.set.reverseDeref = .ok (es.map Entry.key) := by
      intro es rits
      induction rits generalizing es with
      | nil =>
        intro hes
        cases es with
        | nil => rfl
        | cons e es => simp [pure, Except.pure] at hes
      | cons rit rits ih =>
        intro hes
        cases hd : m.reverseDeref rit with
        | error f => simp [hd, bind, Except.bind] at hes
        | ok o =>
          cases hds : rits.mapM m.reverseDeref with
          | error f => simp [hd, hds, bind, Except.bind] at hes
          | ok os =>
            simp only [List.mapM_cons, hd, hds, bind, Except.bind, pure, Except.pure,
              Except.ok.injEq] at hes
            cases es with
            | nil => cases hes
            | cons e es =>
              obtain ⟨rfl, rfl⟩ := List.cons.inj hes
              simp only [List.mapM_cons, h.reverseDeref hd, ih es hds, bind, Except.bind, pure,
                Except.pure, List.map_cons]
    rw [h.keys, ← List.map_reverse]
    refine hkeys t.toList.reverse rits ?_
    rw [List.map_reverse]
    exact hshow

/-! ### The modifiers -/

/-- `Insert` keeps the nodes of the tree, so the other iterators stay where they are. -/
theorem insert (key : K) : ∃ it s m' t',
    p.set.insert compare key = .ok (it, !a.set.contains key, s) ∧
    Refines ({ a with set := a.set.insert key } : SetModel compare) { p with set := s } m' t' ∧
    Denotes m'.nil t' ((a.set.insert key).find key) it := by
  rcases Map.insert_spec h.wf key () with ⟨e, he, heq, m', hm, hwf, hev⟩ | ⟨hnone, m', t', hm, hins⟩
  · obtain ⟨⟨it, b, s⟩, hs, rfl, rfl, hsame⟩ := h.same.insert eq_pairing key () _ hm
    obtain ⟨pre, post, hl⟩ := List.append_of_mem he
    have hkeys := h.keys_split hl
    rw [FSet.contains_split hkeys heq, FSet.insert_present hkeys heq, FSet.find_split hkeys heq]
    refine ⟨_, s, m', t, hs, ⟨hsame, hwf, h.keys, fun i => ?_⟩, e, he, rfl, rfl⟩
    rw [hev.nil]
    exact h.vars i
  · obtain ⟨⟨it, b, s⟩, hs, rfl, rfl, hsame⟩ := h.same.insert eq_pairing key () _ hm
    obtain ⟨pre, post, hl, hl'⟩ := hins.splits
    -- The new entry lies between smaller and greater ones.
    have hsorted := hins.wf.sorted
    unfold Map.Sorted at hsorted
    rw [hl'] at hsorted
    obtain ⟨-, hright, hcross⟩ := List.pairwise_append.mp hsorted
    have hkeys : (a.set.insert key).keys = pre.map Entry.key ++ key :: post.map Entry.key := by
      show insertKey compare key a.set.keys = _
      rw [h.keys_split hl, insertKey_split]
      · intro k hk
        obtain ⟨e, he, rfl⟩ := List.mem_map.mp hk
        exact hcross e he _ List.mem_cons_self
      · intro k hk
        obtain ⟨e, he, rfl⟩ := List.mem_map.mp hk
        exact (List.pairwise_cons.mp hright).1 e he
    rw [FSet.contains_absent (h.absent hnone), FSet.find_split hkeys (OrdMap.Equiv.refl key)]
    refine ⟨_, s, m', t', hs, ⟨hsame, hins.wf, ?_, fun i => ?_⟩, _, hins.mem, rfl, rfl⟩
    · show (a.set.insert key).keys = _
      rw [hkeys, hl', List.map_append, List.map_cons]
    · rw [hins.evolves.nil]
      refine (h.vars i).mono fun f hf => ?_
      rw [hl, List.mem_append] at hf
      rw [hl', List.mem_append, List.mem_cons]
      exact hf.imp_right Or.inr

/-- A member leaves the set, whichever way it was found. -/
theorem leave {m' : Map K Unit} {t' : RbTree (Entry K Unit)} {s : Set K}
    {pre post : List (Entry K Unit)} {e : Entry K Unit} {key : K} (hsame : Same Eq m' s)
    (hwf : m'.WF compare t') (hev : m.Evolves t m' t') (hl : t.toList = pre ++ e :: post)
    (hl' : t'.toList = pre ++ post) (heq : OrdMap.Equiv compare key e.key) :
    Refines (a.erase key) { p with set := s } m' t' := by
  refine ⟨hsame, hwf, ?_, fun i => ?_⟩
  · show (a.set.erase key).keys = _
    rw [FSet.erase_split (h.keys_split hl) heq, hl', List.map_append]
  · rw [hev.nil]
    exact (h.vars i).leave hl hl' heq

/-- `Erase` of a key takes its node away, and with it the iterators at that node. -/
theorem erase (key : K) : ∃ s m' t',
    p.set.erase compare key = .ok (if a.set.contains key then 1 else 0, s) ∧
    Refines (a.erase key) { p with set := s } m' t' := by
  rcases Map.erase_spec h.wf key with
    ⟨pre, e, post, hl, heq, m', t', hm, hwf, hev, hl'⟩ | ⟨hnone, hm⟩
  · obtain ⟨⟨n, s⟩, hs, rfl, hsame⟩ := h.same.erase eq_pairing key _ hm
    rw [FSet.contains_split (h.keys_split hl) heq]
    exact ⟨s, m', t', hs, h.leave hsame hwf hev hl hl' heq⟩
  · obtain ⟨⟨n, s⟩, hs, rfl, hsame⟩ := h.same.erase eq_pairing key _ hm
    rw [FSet.contains_absent (h.absent hnone)]
    refine ⟨s, m, t, hs, hsame, h.wf, ?_, fun i => (h.vars i).leave_absent hnone⟩
    show (a.set.erase key).keys = _
    rw [FSet.erase_absent (h.absent hnone)]
    exact h.keys

/-- `Erase` at a member. -/
theorem eraseAt {i : Nat} {k : K} (hi : a.vars i = .on k) : ∃ it s m' t',
    p.set.eraseAt (p.vars i) = .ok (it, s) ∧ Refines (a.erase k) { p with set := s } m' t' := by
  have hvar := h.vars i
  rw [hi] at hvar
  obtain ⟨e, he, rfl, hit⟩ := hvar
  obtain ⟨pre, post, hl⟩ := List.append_of_mem he
  obtain ⟨x, m', t', hm, hwf, hev, hl'⟩ := Map.eraseAt_spec h.wf hl
  obtain ⟨⟨it, s⟩, hs, hsim⟩ := h.same.eraseAt eq_pairing (Eq.refl e.addr) _ hm
  rw [hit]
  exact ⟨it, s, m', t', hs, h.leave hsim.2 hwf hev hl hl' (OrdMap.Equiv.refl e.key)⟩

omit [StrictWeak compare] in
/-- `Clear` takes all iterators away. -/
theorem clear : ∃ s m', p.set.clear = .ok s ∧
    Refines (⟨FSet.empty, fun i => (a.vars i).leaveAll⟩ : SetModel compare) { p with set := s } m'
      .nil := by
  obtain ⟨m', hm, hwf, hev⟩ := Map.clear_spec h.wf
  obtain ⟨s, hs, hsame⟩ := h.same.clear eq_pairing _ hm
  refine ⟨s, m', hs, hsame, hwf, rfl, fun i => ?_⟩
  rw [hev.nil]
  exact (h.vars i).leaveAll

/-! ### Statements -/

/-- A statement that a caller may make does to the memory what it does to the finite set, and
shows the same. -/
theorem step {c : Statement K} {x : Shown K} {a' : SetModel compare}
    (hstep : a.step c = some (x, a')) :
    ∃ p' m' t', p.step compare c = .ok (x, p') ∧ Refines a' p' m' t' := by
  cases c with
  | insert i key =>
    obtain ⟨rfl, rfl⟩ := Prod.mk.inj (Option.some.inj hstep)
    obtain ⟨it, s, m', t', hs, hr, hit⟩ := h.insert key
    refine ⟨_, m', t', ?_, hr.store hit i⟩
    simp only [SetProgram.step, hs, bind, Except.bind, pure, Except.pure]
  | erase key =>
    obtain ⟨rfl, rfl⟩ := Prod.mk.inj (Option.some.inj hstep)
    obtain ⟨s, m', t', hs, hr⟩ := h.erase key
    refine ⟨_, m', t', ?_, hr⟩
    simp only [SetProgram.step, hs, bind, Except.bind, pure, Except.pure]
  | eraseAt i j =>
    cases hj : a.vars j with
    | on k =>
      simp only [SetModel.step, hj, Option.some.injEq, Prod.mk.injEq] at hstep
      obtain ⟨rfl, rfl⟩ := hstep
      obtain ⟨it, s, m', t', hs, hr⟩ := h.eraseAt hj
      have hgone : Denotes m'.nil t' (.gone : Cursor K) it := trivial
      refine ⟨_, m', t', ?_, hr.store hgone i⟩
      simp only [SetProgram.step, hs, bind, Except.bind, pure, Except.pure]
    | atEnd =>
      -- `Erase(End())` returns at once.
      simp only [SetModel.step, hj, Option.some.injEq, Prod.mk.injEq] at hstep
      obtain ⟨rfl, rfl⟩ := hstep
      have hvar := h.vars j
      rw [hj] at hvar
      have hend : p.vars j = p.set.endIt := hvar.trans h.same.nil
      have hgone : Denotes m.nil t (.gone : Cursor K) nullptr := trivial
      refine ⟨_, m, t, ?_, h.store hgone i⟩
      simp only [SetProgram.step, Set.eraseAt, hend, if_true, bind, Except.bind, pure, Except.pure]
    | gone => simp [SetModel.step, hj] at hstep
  | eraseRange i j k =>
    simp only [SetModel.step] at hstep
    split at hstep
    · rename_i hsame
      obtain ⟨rfl, rfl⟩ := Prod.mk.inj (Option.some.inj hstep)
      -- The range is empty.
      have heq : p.vars j = p.vars k := of_decide_eq_true (h.equal hsame)
      refine ⟨_, m, t, ?_, h.store (h.vars k) i⟩
      simp [SetProgram.step, Set.eraseRange, Set.eraseLoop, heq, bind, Except.bind, pure,
        Except.pure]
    · cases hstep
  | clear =>
    obtain ⟨rfl, rfl⟩ := Prod.mk.inj (Option.some.inj hstep)
    obtain ⟨s, m', hs, hr⟩ := h.clear
    refine ⟨_, m', .nil, ?_, hr⟩
    simp only [SetProgram.step, hs, bind, Except.bind, pure, Except.pure]
  | find i key =>
    obtain ⟨rfl, rfl⟩ := Prod.mk.inj (Option.some.inj hstep)
    obtain ⟨it, hs, hit⟩ := h.find key
    refine ⟨_, m, t, ?_, h.store hit i⟩
    simp only [SetProgram.step, hs, bind, Except.bind, pure, Except.pure]
  | count key =>
    obtain ⟨rfl, rfl⟩ := Prod.mk.inj (Option.some.inj hstep)
    refine ⟨p, m, t, ?_, h⟩
    simp only [SetProgram.step, h.count key, bind, Except.bind, pure, Except.pure]
  | lowerBound i key =>
    obtain ⟨rfl, rfl⟩ := Prod.mk.inj (Option.some.inj hstep)
    obtain ⟨it, hs, hit⟩ := h.lowerBound key
    refine ⟨_, m, t, ?_, h.store hit i⟩
    simp only [SetProgram.step, hs, bind, Except.bind, pure, Except.pure]
  | upperBound i key =>
    obtain ⟨rfl, rfl⟩ := Prod.mk.inj (Option.some.inj hstep)
    obtain ⟨it, hs, hit⟩ := h.upperBound key
    refine ⟨_, m, t, ?_, h.store hit i⟩
    simp only [SetProgram.step, hs, bind, Except.bind, pure, Except.pure]
  | equalRange i j key =>
    obtain ⟨rfl, rfl⟩ := Prod.mk.inj (Option.some.inj hstep)
    obtain ⟨lo, hlo, hlo'⟩ := h.lowerBound key
    obtain ⟨hi, hhi, hhi'⟩ := h.upperBound key
    refine ⟨_, m, t, ?_, (h.store hlo' i).store hhi' j⟩
    simp only [SetProgram.step, Set.equalRange, hlo, hhi, bind, Except.bind, pure, Except.pure]
  | begin' i =>
    obtain ⟨rfl, rfl⟩ := Prod.mk.inj (Option.some.inj hstep)
    obtain ⟨it, hs, hit⟩ := h.begin'
    refine ⟨_, m, t, ?_, h.store hit i⟩
    simp only [SetProgram.step, hs, bind, Except.bind, pure, Except.pure]
  | endIt i =>
    obtain ⟨rfl, rfl⟩ := Prod.mk.inj (Option.some.inj hstep)
    exact ⟨_, m, t, rfl, h.store (c := .atEnd) h.same.nil.symm i⟩
  | assign i j =>
    obtain ⟨rfl, rfl⟩ := Prod.mk.inj (Option.some.inj hstep)
    exact ⟨_, m, t, rfl, h.store (h.vars j) i⟩
  | increment i =>
    obtain ⟨c, hc, heq⟩ := Option.map_eq_some_iff.mp hstep
    obtain ⟨rfl, rfl⟩ := Prod.mk.inj heq
    obtain ⟨it, hs, hit⟩ := h.increment hc
    refine ⟨_, m, t, ?_, h.store hit i⟩
    simp only [SetProgram.step, hs, bind, Except.bind, pure, Except.pure]
  | decrement i =>
    obtain ⟨c, hc, heq⟩ := Option.map_eq_some_iff.mp hstep
    obtain ⟨rfl, rfl⟩ := Prod.mk.inj heq
    obtain ⟨it, hs, hit⟩ := h.decrement hc
    refine ⟨_, m, t, ?_, h.store hit i⟩
    simp only [SetProgram.step, hs, bind, Except.bind, pure, Except.pure]
  | deref i =>
    have hvar := h.vars i
    cases hi : a.vars i with
    | on k =>
      simp only [SetModel.step, hi, Option.some.injEq, Prod.mk.injEq] at hstep
      obtain ⟨rfl, rfl⟩ := hstep
      rw [hi] at hvar
      obtain ⟨e, he, rfl, hit⟩ := hvar
      refine ⟨p, m, t, ?_, h⟩
      simp only [SetProgram.step, hit, h.deref he, bind, Except.bind, pure, Except.pure]
    | atEnd => simp [SetModel.step, hi] at hstep
    | gone => simp [SetModel.step, hi] at hstep
  | rBegin i =>
    obtain ⟨rfl, rfl⟩ := Prod.mk.inj (Option.some.inj hstep)
    exact ⟨_, m, t, rfl, h.store (c := .atEnd) h.same.nil.symm i⟩
  | rEnd i =>
    obtain ⟨rfl, rfl⟩ := Prod.mk.inj (Option.some.inj hstep)
    obtain ⟨it, hs, hit⟩ := h.begin'
    refine ⟨_, m, t, ?_, h.store hit i⟩
    simp only [SetProgram.step, Set.rEnd, hs, bind, Except.bind, pure, Except.pure]
  | reverseIncrement i =>
    obtain ⟨c, hc, heq⟩ := Option.map_eq_some_iff.mp hstep
    obtain ⟨rfl, rfl⟩ := Prod.mk.inj heq
    obtain ⟨it, hs, hit⟩ := h.decrement hc
    refine ⟨_, m, t, ?_, h.store hit i⟩
    simp only [SetProgram.step, Set.reverseIncrement, hs, bind, Except.bind, pure, Except.pure]
  | reverseDecrement i =>
    obtain ⟨c, hc, heq⟩ := Option.map_eq_some_iff.mp hstep
    obtain ⟨rfl, rfl⟩ := Prod.mk.inj heq
    obtain ⟨it, hs, hit⟩ := h.increment hc
    refine ⟨_, m, t, ?_, h.store hit i⟩
    simp only [SetProgram.step, Set.reverseDecrement, hs, bind, Except.bind, pure, Except.pure]
  | reverseDeref i =>
    -- The member in front of the base.
    simp only [SetModel.step] at hstep
    split at hstep
    · rename_i k hk
      obtain ⟨rfl, rfl⟩ := Prod.mk.inj (Option.some.inj hstep)
      obtain ⟨it, hs, e, he, rfl, hit⟩ := h.decrement hk
      refine ⟨p, m, t, ?_, h⟩
      simp only [SetProgram.step, Set.reverseDeref, hs, hit, h.deref he, bind, Except.bind, pure,
        Except.pure]
    · cases hstep
  | equal i j =>
    obtain ⟨b, hb, heq⟩ := Option.map_eq_some_iff.mp hstep
    obtain ⟨rfl, rfl⟩ := Prod.mk.inj heq
    refine ⟨p, m, t, ?_, h⟩
    simp only [SetProgram.step, h.equal hb, pure, Except.pure]
  | size =>
    obtain ⟨rfl, rfl⟩ := Prod.mk.inj (Option.some.inj hstep)
    refine ⟨p, m, t, ?_, h⟩
    simp only [SetProgram.step, h.keys, List.length_map, ← h.wf.size, h.same.size, pure,
      Except.pure]
  | empty =>
    obtain ⟨rfl, rfl⟩ := Prod.mk.inj (Option.some.inj hstep)
    have hempty : p.set.empty = a.set.keys.isEmpty := by
      unfold Set.empty
      rw [← h.same.size, h.wf.size, h.keys]
      cases t.toList <;> rfl
    refine ⟨p, m, t, ?_, h⟩
    simp only [SetProgram.step, hempty, pure, Except.pure]
  | forEach =>
    obtain ⟨rfl, rfl⟩ := Prod.mk.inj (Option.some.inj hstep)
    obtain ⟨first, its, hfirst, hloop, hshow⟩ := h.forEach
    refine ⟨p, m, t, ?_, h⟩
    simp only [SetProgram.step, hfirst, hloop, hshow, bind, Except.bind, pure, Except.pure]
  | forEachReverse =>
    obtain ⟨rfl, rfl⟩ := Prod.mk.inj (Option.some.inj hstep)
    obtain ⟨last, rits, hlast, hloop, hshow⟩ := h.forEachReverse
    refine ⟨p, m, t, ?_, h⟩
    simp only [SetProgram.step, hlast, hloop, hshow, bind, Except.bind, pure, Except.pure]

omit h in
/-- A whole program. -/
theorem run (cs : List (Statement K)) : ∀ {a : SetModel compare} {p : SetProgram K}
    {m : Map K Unit} {t : RbTree (Entry K Unit)} {xs : List (Shown K)} {a' : SetModel compare},
    Refines a p m t → a.run cs = some (xs, a') →
      ∃ p' m' t', p.run compare cs = .ok (xs, p') ∧ Refines a' p' m' t' := by
  induction cs with
  | nil =>
    intro a p m t xs a' h hrun
    obtain ⟨rfl, rfl⟩ := Prod.mk.inj (Option.some.inj hrun)
    exact ⟨p, m, t, rfl, h⟩
  | cons c cs ih =>
    intro a p m t xs a' h hrun
    obtain ⟨⟨x, a1⟩, hstep, hrest⟩ := Option.bind_eq_some_iff.mp hrun
    obtain ⟨⟨ys, a2⟩, hys, heq⟩ := Option.bind_eq_some_iff.mp hrest
    obtain ⟨rfl, rfl⟩ := Prod.mk.inj (Option.some.inj heq)
    obtain ⟨p1, m1, t1, hp1, h1⟩ := h.step hstep
    obtain ⟨p2, m2, t2, hp2, h2⟩ := ih h1 hys
    refine ⟨p2, m2, t2, ?_, h2⟩
    simp only [SetProgram.run, hp1, hp2, bind, Except.bind, pure, Except.pure]

end Refines

/-- An empty set, in a memory with anything else in it. -/
theorem refines_start [Inhabited K] (h : Heap K Unit) :
    Refines (SetModel.start : SetModel compare) (SetProgram.start h) (Map.construct h) .nil where
  same := ⟨rfl, rfl, rfl, rfl, fun p q hpq => by
    subst hpq
    show Option.Rel _ ((Map.construct h : Map K Unit).heap.get p)
      ((Map.construct h : Map K Unit).heap.get p)
    cases (Map.construct h : Map K Unit).heap.get p with
    | none => exact .none
    | some n => exact .some ⟨rfl, rfl, rfl, rfl, rfl⟩⟩
  wf := Map.construct_spec compare h
  keys := rfl
  vars _ := trivial

/-- Every program over an empty set that is a program over a finite set runs without a fault and
shows the same: what is inserted, found and counted, where the bounds are, what the iterators
show after every insertion and erasure, and the keys in order. -/
theorem SetProgram.run_shows [StrictWeak compare] [Inhabited K] (h : Heap K Unit)
    {cs : List (Statement K)} {xs : List (Shown K)}
    (hrun : (SetModel.start.run cs : Option (_ × SetModel compare)).map Prod.fst = some xs) :
    ((SetProgram.start h).run compare cs).map Prod.fst = .ok xs := by
  obtain ⟨⟨ys, a⟩, hys, rfl⟩ := Option.map_eq_some_iff.mp hrun
  obtain ⟨p, m, t, hp, -⟩ := Refines.run cs (refines_start h) hys
  rw [hp]
  rfl

/-- An iterator to 7 stays valid while 5 is erased through another one, and so does a reverse
iterator whose base it is. -/
theorem SetProgram.run_shows_nat :
    ((SetProgram.start ⟨[]⟩).run (fun a b : Nat => decide (a < b))
      [.insert 0 5, .insert 1 7, .insert 2 3, .eraseAt 0 0, .deref 1, .reverseDeref 1,
        .eraseRange 0 1 1, .decrement 1, .deref 1, .forEach]).map Prod.fst =
      .ok [.flag true, .flag true, .flag true, .nothing, .key 7, .key 3, .nothing, .nothing,
        .key 3, .keys [3, 7]] :=
  SetProgram.run_shows ⟨[]⟩ rfl

end KernelEventsTrace.Driver.Std
