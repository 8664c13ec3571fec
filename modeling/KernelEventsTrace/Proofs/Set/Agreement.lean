import KernelEventsTrace.Proofs.Map.Iteration
import KernelEventsTrace.Proofs.Set.Simulation

/-!
# `KernelEventsTrace.Proofs.Set.Agreement`: `Set` and `Map` agree

The public calls of `Set` simulate those of `Map` (`Same.call`), and a call on a well-formed map
succeeds (`Map.WF.call`). So the same calls on an empty map and an empty set, in memories of
their own, succeed on both sides and leave trees of the same shape, with the same colours and
keys (`Set.agrees`).
-/

set_option autoImplicit false

namespace KernelEventsTrace.Driver.Std

open KernelEventsTrace.RedBlack
open KernelEventsTrace.OrdMap (StrictWeak)
open KernelEventsTrace.Simulation

variable {K V : Type} {compare : K → K → Bool}

/-! ### The public calls -/

/-- The same end of a search on both sides. -/
inductive SameSearch (β : Ptr → Ptr → Prop) : Map.Search → Map.Search → Prop where
  | found {x x' : Ptr} : β x x' → SameSearch β (.found x) (.found x')
  | absent {y y' : Ptr} : β y y' → SameSearch β (.absent y) (.absent y')

/-- The same answer on both sides. -/
inductive SameAnswer (β : Ptr → Ptr → Prop) : Answer → Answer → Prop where
  | inserted {it it' : Iterator} (isNew : Bool) :
      β it it' → SameAnswer β (.inserted it isNew) (.inserted it' isNew)
  | number (n : Nat) : SameAnswer β (.number n) (.number n)
  | iterator {it it' : Iterator} : β it it' → SameAnswer β (.iterator it) (.iterator it')
  | done : SameAnswer β .done .done

section
variable {β : Ptr → Ptr → Prop} (hβ : Pairing β) {m : Map K V} {s : Set K} (h : Same β m s)

include hβ h

/-- The induction is on the fuel. Both searches compare with the same keys. -/
theorem Same.searchLoop (fuel : Nat) (key : K) {x x' y y' : Ptr} (hx : β x x') (hy : β y y') :
    Sim (SameSearch β) (Map.searchLoop compare fuel m key x y)
      (Set.searchLoop compare fuel s key x' y') := by
  induction fuel generalizing x x' y y' with
  | zero => exact Sim.error
  | succ fuel ih =>
    unfold Map.searchLoop Set.searchLoop
    refine Sim.ite (not_congr (hβ.eq_iff hx h.nil)) ?_ (Sim.pure (.absent hy))
    refine Sim.bind (h.node hx) fun n n' hn => ?_
    refine Sim.ite (by rw [hn.key]) (ih hn.left hx) ?_
    exact Sim.ite (by rw [hn.key]) (ih hn.right hx) (Sim.pure (.found hx))

/-- Both `Find` stop at the same node. -/
theorem Same.find (key : K) : Sim β (m.find compare key) (s.find compare key) := by
  unfold Map.find Set.find
  rw [h.fuel]
  refine Sim.bind (h.searchLoop hβ m.fuel key h.root h.nil) fun r r' hr => ?_
  cases hr with
  | found hx => exact Sim.pure hx
  | absent hy => exact Sim.pure h.nil

/-- Both `Count` find the same. -/
theorem Same.count (key : K) : Sim Eq (m.count compare key) (s.count compare key) := by
  unfold Map.count Set.count
  refine Sim.bind (h.find hβ key) fun it it' hit => Sim.pure ?_
  have hend : it ≠ m.endIt ↔ it' ≠ s.endIt := not_congr (hβ.eq_iff hit h.nil)
  by_cases hc : it ≠ m.endIt
  · rw [if_pos hc, if_pos (hend.mp hc)]
  · rw [if_neg hc, if_neg fun hc' => hc (hend.mpr hc')]

/-- Both bounds go the same way down. -/
theorem Same.boundLoop (goLeft : K → Bool) (fuel : Nat) {x x' y y' : Ptr} (hx : β x x')
    (hy : β y y') :
    Sim β (Map.boundLoop goLeft fuel m x y) (Set.boundLoop goLeft fuel s x' y') := by
  induction fuel generalizing x x' y y' with
  | zero => exact Sim.error
  | succ fuel ih =>
    unfold Map.boundLoop Set.boundLoop
    refine Sim.ite (not_congr (hβ.eq_iff hx h.nil)) ?_ (Sim.pure hy)
    refine Sim.bind (h.node hx) fun n n' hn => ?_
    exact Sim.ite (by rw [hn.key]) (ih hn.left hx) (ih hn.right hy)

/-- Both `LowerBound` stop at the same node. -/
theorem Same.lowerBound (key : K) :
    Sim β (m.lowerBound compare key) (s.lowerBound compare key) := by
  unfold Map.lowerBound Set.lowerBound
  rw [h.fuel]
  exact h.boundLoop hβ _ m.fuel h.root h.nil

/-- Both `UpperBound` stop at the same node. -/
theorem Same.upperBound (key : K) :
    Sim β (m.upperBound compare key) (s.upperBound compare key) := by
  unfold Map.upperBound Set.upperBound
  rw [h.fuel]
  exact h.boundLoop hβ _ m.fuel h.root h.nil

/-- The new node is put below the same leaf. -/
theorem Same.linkBelow {z z' y y' : Ptr} (hz : β z z') (hy : β y y') :
    Sim (Same β) (Map.linkBelow compare m z y) (Set.linkBelow compare s z' y') := by
  unfold Map.linkBelow Set.linkBelow
  refine Sim.ite (hβ.eq_iff hy h.nil) (Sim.pure ⟨hz, h.nil, h.size, h.next, h.cells⟩) ?_
  refine Sim.bind (h.node hz) fun nz nz' hnz => ?_
  refine Sim.bind (h.node hy) fun ny ny' hny => ?_
  exact Sim.ite (by rw [hnz.key, hny.key]) (h.setLeft hβ hy hz) (h.setRight hβ hy hz)

/-- The new node is put in, and the colours are repaired. -/
theorem Same.attach {z z' y y' : Ptr} (hz : β z z') (hy : β y y') :
    Sim (Same β) (Map.attach compare m z y) (Set.attach compare s z' y') := by
  unfold Map.attach Map.link Set.attach
  simp only [bind_assoc]
  refine Sim.bind (h.setParent hβ hz hy) fun m s h => ?_
  refine Sim.bind (h.linkBelow hβ hz hy) fun m s h => ?_
  refine Sim.bind (h.setLeft hβ hz h.nil) fun m s h => ?_
  refine Sim.bind (h.setRight hβ hz h.nil) fun m s h => ?_
  refine Sim.bind (h.setRed hβ hz rfl) fun m s h => ?_
  refine Sim.bind (h.insertFixup hβ hz) fun m s h => ?_
  exact Sim.pure ⟨h.root, h.nil, congrArg (· + 1) h.size, h.next, h.cells⟩

/-- The next allocation on both sides. -/
theorem Same.newNode (key : K) (val : V) : Same β (m.newNode key val).2 (s.newNode key).2 := by
  have hpos : 0 < m.heap.next := Nat.succ_pos _
  refine ⟨h.root, h.nil, h.size, ?_, fun a b hab => ?_⟩
  · show β (m.heap.alloc _).next (s.heap.alloc _).next
    rw [Heap.next_alloc, Heap.next_alloc]
    exact hβ.next _ _ hpos h.next
  · show Option.Rel _ ((m.heap.alloc _).get a) ((s.heap.alloc _).get b)
    rw [Heap.get_alloc, Heap.get_alloc]
    by_cases ha : a = m.heap.next
    · rw [if_pos ha, if_pos ((hβ.eq_iff hab h.next).mp ha)]
      exact .some ⟨rfl, rfl, hβ.null, hβ.null, hβ.null⟩
    · rw [if_neg ha, if_neg fun hb => ha ((hβ.eq_iff hab h.next).mpr hb)]
      exact h.cells a b hab

/-- `Insert` compares in the same order, and makes a node in both heaps. -/
theorem Same.insert (key : K) (val : V) :
    Sim (fun a b => β a.1 b.1 ∧ a.2.1 = b.2.1 ∧ Same β a.2.2 b.2.2) (m.insert compare key val)
      (s.insert compare key) := by
  have hz : β m.heap.next s.heap.next := h.next
  have h := h.newNode hβ key val
  unfold Map.insert Set.insert
  show Sim _ (Map.searchLoop compare (m.newNode key val).2.fuel (m.newNode key val).2 key
      (m.newNode key val).2.root (m.newNode key val).2.nil >>= _)
    (Set.searchLoop compare (s.newNode key).2.fuel (s.newNode key).2 key
      (s.newNode key).2.root (s.newNode key).2.nil >>= _)
  rw [h.fuel]
  refine Sim.bind (h.searchLoop hβ _ key h.root h.nil) fun r r' hr => ?_
  cases hr with
  | found hx => exact Sim.bind (h.deleteNode hβ hz) fun m s h => Sim.pure ⟨hx, rfl, h⟩
  | absent hy => exact Sim.bind (h.attach hβ hz hy) fun m s h => Sim.pure ⟨hz, rfl, h⟩

/-- `Erase` of a key finds the same node, and takes it out. -/
theorem Same.erase (key : K) :
    Sim (fun a b => a.1 = b.1 ∧ Same β a.2 b.2) (m.erase compare key) (s.erase compare key) := by
  unfold Map.erase Set.erase
  refine Sim.bind (h.find hβ key) fun it it' hit => ?_
  refine Sim.ite (not_congr (hβ.eq_iff hit h.nil)) ?_ (Sim.pure ⟨rfl, h⟩)
  exact Sim.bind (h.eraseAt hβ hit) fun a a' ha => Sim.pure ⟨rfl, ha.2⟩

/-- A call on both sides. -/
theorem Same.call (c : Call K V) :
    Sim (fun a b => SameAnswer β a.1 b.1 ∧ Same β a.2 b.2) (m.call compare c)
      (s.call compare c) := by
  cases c with
  | insert key val =>
    refine Sim.bind (h.insert hβ key val) fun a a' ha => ?_
    obtain ⟨hit, hnew, h⟩ := ha
    refine Sim.pure ⟨?_, h⟩
    rw [hnew]
    exact .inserted _ hit
  | erase key =>
    refine Sim.bind (h.erase hβ key) fun a a' ha => ?_
    obtain ⟨hn, h⟩ := ha
    refine Sim.pure ⟨?_, h⟩
    rw [hn]
    exact .number _
  | clear => exact Sim.bind (h.clear hβ) fun m s h => Sim.pure ⟨.done, h⟩
  | find key => exact Sim.bind (h.find hβ key) fun _ _ hit => Sim.pure ⟨.iterator hit, h⟩
  | count key =>
    refine Sim.bind (h.count hβ key) fun n n' hn => Sim.pure ⟨?_, h⟩
    rw [hn]
    exact .number _
  | lowerBound key =>
    exact Sim.bind (h.lowerBound hβ key) fun _ _ hit => Sim.pure ⟨.iterator hit, h⟩
  | upperBound key =>
    exact Sim.bind (h.upperBound hβ key) fun _ _ hit => Sim.pure ⟨.iterator hit, h⟩

omit h in
/-- A sequence of calls on both sides. -/
theorem Same.callAll (calls : List (Call K V)) : ∀ {m : Map K V} {s : Set K}, Same β m s →
    Sim (fun a b => List.Forall₂ (SameAnswer β) a.1 b.1 ∧ Same β a.2 b.2)
      (m.callAll compare calls) (s.callAll compare calls) := by
  induction calls with
  | nil => exact fun h => Sim.pure ⟨.nil, h⟩
  | cons c calls ih =>
    intro m s h
    refine Sim.bind (h.call hβ c) fun a a' ha => ?_
    exact Sim.bind (ih ha.2) fun b b' hb => Sim.pure ⟨.cons ha.1 hb.1, hb.2⟩

/-- Two trees of the same shape, with the same colour and key at every node. The nodes are at
paired addresses. -/
inductive SameTree (β : Ptr → Ptr → Prop) : RbTree (Ptr × K) → RbTree (Ptr × K) → Prop where
  | nil : SameTree β .nil .nil
  | node {l l' r r' : RbTree (Ptr × K)} {p p' : Ptr} (isRed : Bool) (key : K) :
      β p p' → SameTree β l l' → SameTree β r r' →
      SameTree β (.node isRed l (p, key) r) (.node isRed l' (p', key) r')

/-- The trees in the memories. -/
theorem Same.readTree (fuel : Nat) {p p' : Ptr} (hp : β p p') :
    Sim (SameTree β) (m.readTree fuel p) (s.readTree fuel p') := by
  induction fuel generalizing p p' with
  | zero => exact Sim.error
  | succ fuel ih =>
    unfold Map.readTree Set.readTree
    refine Sim.ite (hβ.eq_iff hp h.nil) (Sim.pure .nil) ?_
    refine Sim.bind (h.node hp) fun n n' hn => ?_
    refine Sim.bind (ih hn.left) fun l l' hl => ?_
    refine Sim.bind (ih hn.right) fun r r' hr => Sim.pure ?_
    rw [hn.key, hn.isRed]
    exact .node _ _ hp hl hr

end

/-! ### The map side succeeds -/

namespace Map

/-- A call on a well-formed map succeeds and keeps the invariant. -/
theorem WF.call [StrictWeak compare] {m : Map K V} {t : RbTree (Entry K V)}
    (h : m.WF compare t) (c : Call K V) :
    ∃ a m' t', m.call compare c = .ok (a, m') ∧ WF compare m' t' := by
  have hfind : ∀ key, ∃ it, m.find compare key = .ok it := by
    intro key
    rcases find_spec h key with ⟨e, -, -, hm⟩ | ⟨-, hm⟩ <;> exact ⟨_, hm⟩
  cases c with
  | insert key val =>
    rcases insert_spec h key val with ⟨e, -, -, m', hm', hwf, -⟩ | ⟨-, m', t', hm', hins⟩
    · exact ⟨_, m', t, by simp only [Map.call, hm']; rfl, hwf⟩
    · exact ⟨_, m', t', by simp only [Map.call, hm']; rfl, hins.wf⟩
  | erase key =>
    rcases erase_spec h key with ⟨-, -, -, -, -, m', t', hm', hwf, -⟩ | ⟨-, hm'⟩
    · exact ⟨_, m', t', by simp only [Map.call, hm']; rfl, hwf⟩
    · exact ⟨_, m, t, by simp only [Map.call, hm']; rfl, h⟩
  | clear =>
    obtain ⟨m', hm', hwf, -⟩ := clear_spec h
    exact ⟨_, m', .nil, by simp only [Map.call, hm']; rfl, hwf⟩
  | find key =>
    obtain ⟨it, hm'⟩ := hfind key
    exact ⟨_, m, t, by simp only [Map.call, hm']; rfl, h⟩
  | count key =>
    obtain ⟨it, hm'⟩ := hfind key
    exact ⟨_, m, t, by simp only [Map.call, Map.count, hm']; rfl, h⟩
  | lowerBound key =>
    obtain ⟨pre, post, hm', -⟩ := h.lowerBound key
    exact ⟨_, m, t, by simp only [Map.call, hm']; rfl, h⟩
  | upperBound key =>
    obtain ⟨pre, post, hm', -⟩ := h.upperBound key
    exact ⟨_, m, t, by simp only [Map.call, hm']; rfl, h⟩

/-- A sequence of calls on a well-formed map succeeds and keeps the invariant. -/
theorem WF.callAll [StrictWeak compare] (calls : List (Call K V)) :
    ∀ {m : Map K V} {t : RbTree (Entry K V)}, m.WF compare t →
      ∃ as m' t', m.callAll compare calls = .ok (as, m') ∧ WF compare m' t' := by
  induction calls with
  | nil => exact fun {m t} h => ⟨[], m, t, rfl, h⟩
  | cons c calls ih =>
    intro m t h
    obtain ⟨a, m1, t1, hm1, h1⟩ := h.call c
    obtain ⟨as, m2, t2, hm2, h2⟩ := ih h1
    refine ⟨a :: as, m2, t2, ?_, h2⟩
    simp only [Map.callAll, hm1, hm2, bind, Except.bind, pure, Except.pure]

/-- A tree in memory can be read to its height. -/
theorem readTree_of_treeAt (fuel : Nat) {m : Map K V} :
    ∀ {par : Ptr} {t : RbTree (Entry K V)}, TreeAt m.heap.get m.nil par t →
      m.nil ∉ treeAddrs t → t.height < fuel →
      ∃ tm, m.readTree fuel (treeAddr m.nil t) = .ok tm := by
  induction fuel with
  | zero => intro par t _ _ hlt; omega
  | succ fuel ih =>
    intro par t ht hnil hlt
    unfold Map.readTree
    cases t with
    | nil => exact ⟨.nil, by simp [pure, Except.pure]⟩
    | node c l e r =>
      obtain ⟨he, hl, hr⟩ := ht
      rw [mem_treeAddrs_node] at hnil
      simp only [not_or] at hnil
      obtain ⟨hnile, hnill, hnilr⟩ := hnil
      simp only [RbTree.height] at hlt
      obtain ⟨tl, htl⟩ := ih hl hnill (by omega)
      obtain ⟨tr, htr⟩ := ih hr hnilr (by omega)
      have hne : e.addr ≠ m.nil := fun heq => hnile heq.symm
      refine ⟨.node c tl (e.addr, e.key) tr, ?_⟩
      simp only [treeAddr_node, hne, if_false, node_of_get he, bind, Except.bind, htl, htr, pure,
        Except.pure]

end Map

/-! ### Agreement -/

/-- The addresses that two memories hand out from `d` and `e` on, in order. -/
def Twin (d e : Ptr) (p q : Ptr) : Prop :=
  (p = nullptr ∧ q = nullptr) ∨ ∃ i, p = d + i ∧ q = e + i

/-- Addresses that were handed out at the same time belong together. -/
theorem twin_pairing {d e : Nat} (hd : 0 < d) (he : 0 < e) : Pairing (Twin d e) := by
  refine ⟨⟨?_, ?_⟩, Or.inl ⟨rfl, rfl⟩, ?_⟩
  · intro p p' q hp hp'
    unfold Twin nullptr at hp hp'
    grind
  · intro p q q' hq hq'
    unfold Twin nullptr at hq hq'
    grind
  · intro p q hp hpq
    unfold Twin nullptr at hpq ⊢
    rcases hpq with ⟨rfl, -⟩ | ⟨i, rfl, rfl⟩
    · omega
    · exact Or.inr ⟨i + 1, rfl, rfl⟩

/-- An empty map and an empty set, each in a memory of its own. -/
theorem Same.construct [Inhabited K] [Inhabited V] (hm : Heap K V) (hs : Heap K Unit) :
    Same (Twin hm.next hs.next) (Map.construct hm : Map K V) (Set.construct hs) := by
  have hβ : Pairing (Twin hm.next hs.next) := twin_pairing (Nat.succ_pos _) (Nat.succ_pos _)
  have hnil : Twin hm.next hs.next hm.next hs.next := Or.inr ⟨0, rfl, rfl⟩
  refine ⟨hnil, hnil, rfl, ?_, fun p q hpq => ?_⟩
  · show Twin _ _ (hm.alloc _).next (hs.alloc _).next
    rw [Heap.next_alloc, Heap.next_alloc]
    exact Or.inr ⟨1, rfl, rfl⟩
  · show Option.Rel _ ((hm.alloc _).get p) ((hs.alloc _).get q)
    rw [Heap.get_alloc, Heap.get_alloc]
    by_cases hp : p = hm.next
    · rw [if_pos hp, if_pos ((hβ.eq_iff hpq hnil).mp hp)]
      exact .some ⟨rfl, rfl, hnil, hnil, hnil⟩
    · rw [if_neg hp, if_neg fun hq => hp ((hβ.eq_iff hpq hnil).mpr hq)]
      -- No node of the old memories is paired.
      rcases hpq with ⟨rfl, rfl⟩ | ⟨i, rfl, rfl⟩
      · exact .none
      · rw [hm.get_of_next_le (Nat.le_add_right _ _), hs.get_of_next_le (Nat.le_add_right _ _)]
        exact .none

/-- After every sequence of calls on an empty map and an empty set, the two trees have the same
shape and the same colour and key at every node. The answers are equal numbers and booleans,
and iterators to the same places. The pairing of the nodes is one for all sequences. -/
theorem Set.agrees [StrictWeak compare] [Inhabited K] [Inhabited V] (hm : Heap K V)
    (hs : Heap K Unit) :
    ∃ β : Ptr → Ptr → Prop, Relator.BiUnique β ∧ ∀ calls : List (Call K V),
      ∃ as m tm as' s ts, (Map.construct hm).callAll compare calls = .ok (as, m) ∧
        (Set.construct hs).callAll compare calls = .ok (as', s) ∧
        m.readTree m.fuel m.root = .ok tm ∧ s.readTree s.fuel s.root = .ok ts ∧
        SameTree β tm ts ∧ List.Forall₂ (SameAnswer β) as as' ∧ β m.endIt s.endIt ∧
        m.size = s.size := by
  have hβ : Pairing (Twin hm.next hs.next) := twin_pairing (Nat.succ_pos _) (Nat.succ_pos _)
  refine ⟨_, hβ.unique, fun calls => ?_⟩
  obtain ⟨as, m, t, hrun, hwf⟩ := Map.WF.callAll calls (Map.construct_spec compare hm)
  obtain ⟨⟨as', s⟩, hrun', has, h⟩ := Same.callAll hβ calls (Same.construct hm hs) _ hrun
  obtain ⟨tm, htm⟩ := Map.readTree_of_treeAt m.fuel hwf.rep.cells hwf.rep.nil_notMem
    hwf.height_lt_fuel
  rw [← hwf.rep.root] at htm
  obtain ⟨ts, hts, htree⟩ := h.readTree hβ m.fuel h.root tm htm
  rw [← h.fuel] at hts
  exact ⟨as, m, tm, as', s, ts, hrun, hrun', htm, hts, htree, has, h.nil, h.size⟩

/-- Calls over natural numbers, in memories with different contents. -/
theorem Set.agrees_nat :
    ∃ β : Ptr → Ptr → Prop, Relator.BiUnique β ∧ ∀ calls : List (Call Nat Nat),
      ∃ as m tm as' s ts,
        (Map.construct ⟨[none]⟩).callAll (fun a b => decide (a < b)) calls = .ok (as, m) ∧
        (Set.construct ⟨[]⟩).callAll (fun a b => decide (a < b)) calls = .ok (as', s) ∧
        m.readTree m.fuel m.root = .ok tm ∧ s.readTree s.fuel s.root = .ok ts ∧
        SameTree β tm ts ∧ List.Forall₂ (SameAnswer β) as as' ∧ β m.endIt s.endIt ∧
        m.size = s.size :=
  Set.agrees ⟨[none]⟩ ⟨[]⟩

end KernelEventsTrace.Driver.Std
