import KernelEventsTrace.Driver.Std.SetConstruct
import KernelEventsTrace.Proofs.Set.Agreement

/-!
# `KernelEventsTrace.Proofs.Set.Construct`: sets built without a comparator

`Set()` takes `DefaultCompare`, and so do the constructors with a placeholder for an allocator.
`Set(first, last)` and `Set(il)` take `key_compare()`, which is a null pointer. The first insertion
compares nothing, because the set is empty (`insertBy_of_empty`), and every further one calls the
null pointer (`insertBy_null`).

* `insertBy_eq`: with a comparator that is not null, the model is that of `Set`.
* `range_iff`: which ranges build a set.
-/

set_option autoImplicit false

namespace KernelEventsTrace.Driver.Std

open KernelEventsTrace.RedBlack
open KernelEventsTrace.OrdMap (StrictWeak)
open KernelEventsTrace.Simulation

variable {K : Type}

namespace Set

variable {s : Set K} {val : K}

/-! ### A comparator that is a function -/

/-- With a comparator the search is that of the set. -/
theorem searchLoopBy_eq (f : K → K → Bool) (fuel : Nat) (s : Set K) (val : K) (x y : Ptr) :
    searchLoopBy (some f) fuel s val x y = searchLoop f fuel s val x y := by
  induction fuel generalizing x y with
  | zero => rfl
  | succ fuel ih =>
    show (if x ≠ s.nil then _ else _) = (if x ≠ s.nil then _ else _)
    congr 1
    show (s.node x >>= _) = (s.node x >>= _)
    congr 1
    funext n
    show (if f val n.key = true then _ else if f n.key val = true then _ else _) = _
    rw [ih, ih]

/-- With a function, `Insert` is the `Insert` of `Set`. -/
theorem insertBy_eq (f : K → K → Bool) (s : Set K) (val : K) :
    s.insertBy (some f) val = s.insert f val := by
  unfold insertBy insert
  show (searchLoopBy (some f) _ _ val _ _ >>= _) = _
  rw [searchLoopBy_eq]
  rfl

/-! ### A comparator that may be null -/

/-- The branch of `Insert` for a key that the search misses. -/
theorem insertBy_of_absent {compare : Comparator K} {y : Ptr}
    (hs : searchLoopBy compare s.fuel (s.newNode val).2 val s.root s.nil = .ok (.absent y)) :
    s.insertBy compare val = (do
      let t ← (s.newNode val).2.attachBy compare s.heap.next y
      return (s.heap.next, true, t)) := by
  have hfuel : (s.newNode val).2.fuel = s.fuel := rfl
  rw [← hfuel] at hs
  simp only [insertBy, newNode, bind, Except.bind] at hs ⊢
  simp only [hs]

/-- A node that becomes the root is not compared. -/
theorem attachBy_nil (compare : Comparator K) (f : K → K → Bool) (z : Ptr) :
    s.attachBy compare z s.nil = s.attach f z s.nil := by
  unfold attachBy attach setParent update
  cases s.node z with
  | error e => rfl
  | ok n =>
    have hlink : ∀ t : Set K, t.nil = s.nil →
        linkBelowBy compare t z s.nil = linkBelow f t z s.nil := by
      intro t ht
      unfold linkBelowBy linkBelow
      rw [if_pos ht.symm, if_pos ht.symm]
    show (linkBelowBy compare _ z s.nil >>= _) = (linkBelow f _ z s.nil >>= _)
    rw [hlink]
    rfl

/-- An insertion into an empty set does not call the comparator. -/
theorem insertBy_of_empty (compare : Comparator K) (f : K → K → Bool) (h : s.root = s.nil) :
    s.insertBy compare val = s.insert f val := by
  have hsearch : ∀ c : Comparator K,
      searchLoopBy c s.fuel (s.newNode val).2 val s.root s.nil = .ok (.absent s.nil) :=
    fun c => if_neg (not_not_intro h)
  have hattach : ∀ c : Comparator K, (s.newNode val).2.attachBy c s.heap.next s.nil =
      (s.newNode val).2.attach f s.heap.next s.nil :=
    fun c => attachBy_nil c f s.heap.next
  rw [← insertBy_eq, insertBy_of_absent (hsearch compare), insertBy_of_absent (hsearch (some f)),
    hattach, hattach]

/-- An insertion into a set that is not empty calls the comparator. -/
theorem insertBy_null (h : s.root ≠ s.nil) : s.insertBy none val = .error .deref := by
  have hsearch : searchLoopBy none s.fuel (s.newNode val).2 val s.root s.nil = .error .deref := by
    show (if s.root ≠ s.nil then _ else _) = _
    rw [if_pos h]
    -- If the root is a node, the comparator is called with its key. If not, the read fails.
    cases hnode : (s.newNode val).2.node s.root with
    | ok n => rfl
    | error e =>
      unfold node at hnode
      cases hget : (s.newNode val).2.heap.get s.root with
      | none =>
        rw [hget] at hnode
        cases hnode
        rfl
      | some n =>
        rw [hget] at hnode
        cases hnode
  unfold insertBy
  show (searchLoopBy none s.fuel (s.newNode val).2 val s.root s.nil >>= _) = _
  rw [hsearch]
  rfl

end Set

/-! ### The first insertion -/

/-- The order in which all keys are equivalent. -/
theorem strictWeak_false : StrictWeak fun _ _ : K => false where
  irrefl _ := nofun
  trans _ _ _ := nofun
  incomp_trans _ _ _ _ _ := ⟨nofun, nofun⟩

/-- The first insertion into a set succeeds, whatever its comparator is, and the set is not empty
any more. -/
theorem Set.insertBy_construct [Inhabited K] (h : Heap K Unit) (val : K) :
    ∃ it s, s.root ≠ s.nil ∧ ∀ compare : Comparator K,
      (Set.construct h).insertBy compare val = .ok (it, true, s) := by
  have hweak : StrictWeak fun _ _ : K => false := strictWeak_false
  -- The same insertion into an empty map, with the order in which all keys are equivalent.
  let m : Map K Unit := Map.construct ⟨[]⟩
  have hβ : Pairing (Twin (Heap.next (⟨[]⟩ : Heap K Unit)) h.next) :=
    twin_pairing (Nat.succ_pos _) (Nat.succ_pos _)
  rcases Map.insert_spec (Map.construct_spec (fun _ _ : K => false) ⟨[]⟩) val () with
    ⟨e, he, -⟩ | ⟨-, m', t', hm', hins⟩
  · exact absurd he List.not_mem_nil
  · have hroot : m'.root ≠ m'.nil := by
      obtain ⟨pre, post, -, hlist⟩ := hins.splits
      rw [hins.wf.rep.root]
      intro heq
      rw [(treeAddr_eq_nil_iff hins.wf.rep.nil_notMem).mp heq] at hlist
      exact List.append_ne_nil_of_right_ne_nil pre (List.cons_ne_nil _ _) hlist.symm
    obtain ⟨⟨it, isNew, s⟩, hs, -, rfl, hsame⟩ :=
      Same.insert hβ (Same.construct ⟨[]⟩ h) val () _ hm'
    refine ⟨it, s, fun heq => hroot ((hβ.eq_iff hsame.root hsame.nil).mpr heq), fun compare => ?_⟩
    rw [insertBy_of_empty compare (fun _ _ => false) rfl]
    exact hs

/-! ### Ranges -/

namespace OrderedSet

variable [Inhabited K] [LT K] [DecidableLT K]

/-- A constructor builds the set that the default constructor and an insertion of each key build. It
makes no fault, so it calls no comparator that is null. -/
def BuildsSame (h : Heap K Unit) (keys : List K) (x : Except Fault (OrderedSet K)) : Prop :=
  ∃ s s', x = .ok s ∧ (construct h).insertRange keys = .ok s' ∧ s.toSet = s'.toSet

omit [Inhabited K] [LT K] [DecidableLT K] in
/-- The first key of a range. -/
theorem insertRange_cons {s : OrderedSet K} {val : K} {it : Iterator} {isNew : Bool} {t : Set K}
    (hinsert : s.toSet.insertBy s.compare val = .ok (it, isNew, t)) (keys : List K) :
    s.insertRange (val :: keys) = insertRange ⟨t, s.compare⟩ keys := by
  have hone : s.insert val = .ok ⟨t, s.compare⟩ := by
    unfold OrderedSet.insert
    rw [hinsert]
    rfl
  unfold insertRange
  rw [List.foldlM_cons, hone]
  rfl

omit [LT K] [DecidableLT K] in
/-- Two keys are too many for a null comparator, whatever they are. -/
theorem insertRange_null (h : Heap K Unit) (a b : K) (keys : List K) :
    (constructBy none h).insertRange (a :: b :: keys) = .error .deref := by
  obtain ⟨it, s, hroot, hinsert⟩ := Set.insertBy_construct h a
  have hfirst : (constructBy none h).toSet.insertBy (constructBy none h).compare a =
      .ok (it, true, s) := hinsert none
  have hsecond : OrderedSet.insert ⟨s, none⟩ b = .error .deref := by
    unfold OrderedSet.insert
    rw [Set.insertBy_null hroot]
    rfl
  rw [insertRange_cons hfirst]
  unfold insertRange
  show (OrderedSet.insert ⟨s, none⟩ b >>= _) = _
  rw [hsecond]
  rfl

/-- `Set(first, last)` and `Set(il)` build the set if and only if there is at most one key. -/
theorem range_iff (h : Heap K Unit) (keys : List K) :
    (BuildsSame h keys (constructRange h keys) ↔ keys.length ≤ 1) ∧
      (BuildsSame h keys (constructList h keys) ↔ keys.length ≤ 1) := by
  have hiff : BuildsSame h keys ((constructBy none h).insertRange keys) ↔ keys.length ≤ 1 := by
    cases keys with
    | nil => exact iff_of_true ⟨_, _, rfl, rfl, rfl⟩ (Nat.zero_le 1)
    | cons a keys =>
      cases keys with
      | nil =>
        -- No comparator is called, so it does not matter which one it is.
        obtain ⟨it, s, -, hinsert⟩ := Set.insertBy_construct h a
        have hnull : (constructBy none h).toSet.insertBy (constructBy none h).compare a =
            .ok (it, true, s) := hinsert none
        have hdefault : (construct h).toSet.insertBy (construct h).compare a =
            .ok (it, true, s) := hinsert _
        exact iff_of_true ⟨_, _, insertRange_cons hnull [], insertRange_cons hdefault [], rfl⟩
          (Nat.le_refl 1)
      | cons b keys =>
        rw [insertRange_null]
        refine iff_of_false (fun hn => ?_) (fun hn => ?_)
        · obtain ⟨s, s', hs, -⟩ := hn
          cases hs
        · rw [List.length_cons, List.length_cons] at hn
          omega
  exact ⟨hiff, hiff⟩

/-- The keys 1 and 2, in an empty memory. -/
theorem not_buildsSame_two :
    ¬ BuildsSame (⟨[]⟩ : Heap Nat Unit) [1, 2] (constructRange ⟨[]⟩ [1, 2]) ∧
      ¬ BuildsSame (⟨[]⟩ : Heap Nat Unit) [1, 2] (constructList ⟨[]⟩ [1, 2]) := by
  have hfault : (constructBy none (⟨[]⟩ : Heap Nat Unit)).insertRange [1, 2] = .error .deref := rfl
  constructor
  · rintro ⟨s, s', hs, -⟩
    cases hfault.symm.trans hs
  · rintro ⟨s, s', hs, -⟩
    cases hfault.symm.trans hs

example : (constructRangeAlloc (⟨[]⟩ : Heap Nat Unit) [1, 2]).map (·.size) = .ok 2 := rfl

end OrderedSet

end KernelEventsTrace.Driver.Std
